/-
  GitCommitsPush.Reconciliation.LauncherInvariant — what holds of the table, the
  launchers and the controllers after every run of `launcherMachine`.

  `Inv s c` says the table is the row of the coordinator `c` and ties its owner to the
  launcher that holds it, its execution to the controller it names, and every live
  launcher's point to what it may rely on there (`PcOk`). `inv_run` is the induction;
  the claims about ownership, wakeups and live executions are read off `Inv`.

  A step of one launcher moves the coordinator in a way described once, by `Moved`:
  whoever holds the row is either the launcher that moved or unaffected. `inv_put` is
  the step of a launcher, `inv_putController` that of a controller.
-/

import GitCommitsPush.Reconciliation.Coordinator
import GitCommitsPush.Reconciliation.Launchers

namespace GitCommitsPush.Reconciliation

open GitCommitsPush.Lib.JsText
open GitCommitsPush.Lib.Runs

/-! ## The invariant -/

namespace Sys

/-- A launcher past its admission is known by this token, pid and identity. -/
def Knows (s : Sys) (token : String) (pid : Int) (identity : String) : Prop :=
  ∃ l, s.launchers token = some l ∧ l.options.pid = pid ∧ l.options.processIdentity = identity ∧
    l.pc.pastAdmission = true

/-- What was read was a row whose owner is a launcher of the system. -/
def ObservedRow (s : Sys) (observed : ReconcilerStateRecord) : Prop :=
  ∃ c : Coordinator, observed = c.record ∧ ∀ o, c.owner = some o → s.Knows o.token o.pid o.processIdentity

/-- No live launcher is the process the observation records as owner. -/
def ObservedDead (s : Sys) (observed : ReconcilerStateRecord) : Prop :=
  ∀ t l, s.launchers t = some l → l.alive = true →
    ¬ (observed.ownerPid = some l.options.pid ∧ observed.ownerProcessIdentity = some l.options.processIdentity)

def DeadGroup (s : Sys) (token : String) : Prop := ∃ k, s.controllers token = some k ∧ k.groupAlive = false

/-- The controller known by this token leads this group. -/
def Leads (s : Sys) (token : String) (groupId : Int) (identity : String) : Prop :=
  ∃ k, s.controllers token = some k ∧ k.pid = groupId ∧ k.identity = identity

end Sys

def PreparedSupervisorPass.Known (p : PreparedSupervisorPass) (s : Sys) : Prop :=
  p.groupId = p.pid ∧ s.Leads p.executionToken p.groupId p.processIdentity

/-- The execution `p` is recorded and authorized. -/
def PreparedSupervisorPass.Authorized (p : PreparedSupervisorPass) (execution : Option ActiveExecutionRecord) : Prop :=
  ∃ e, execution = some e ∧ e.token = p.executionToken ∧ e.groupId = p.groupId ∧
    e.processIdentity = p.processIdentity ∧ e.state = .startAuthorized

/-- What a live launcher may rely on at each point. -/
def PcOk (s : Sys) (c : Coordinator) : Pc → Prop
  | .observing _ observed => s.ObservedRow observed
  | .identifying _ observed pidAlive => s.ObservedRow observed ∧ (pidAlive = false → s.ObservedDead observed)
  | .deciding _ observed pidAlive identity => s.ObservedRow observed ∧
      (ownerIsAlive ⟨fun _ => pidAlive, fun _ => identity⟩ observed = false → s.ObservedDead observed)
  | .terminatingPrior _ e => s.Leads e.token e.groupId e.processIdentity
  | .clearingPrior _ e => s.DeadGroup e.token
  | .registering _ p | .registered _ p | .aborting _ p _ | .awaiting _ p | .cleaning _ p _ => p.Known s
  | .starting _ p => p.Known s ∧ p.Authorized c.execution
  | .clearing _ p _ => p.Known s ∧ s.DeadGroup p.executionToken
  | _ => True

/-- The row's owner is this launcher. -/
def Launcher.Owns (l : Launcher) (c : Coordinator) : Prop :=
  ∃ o, c.owner = some o ∧ o.token = l.options.token ∧ o.pid = l.options.pid ∧
    o.processIdentity = l.options.processIdentity ∧ ∀ g, l.pc.generation = some g → o.running = g

structure LauncherOk (s : Sys) (c : Coordinator) (l : Launcher) : Prop where
  owning : l.pc.owning = true → l.holds = true
  past : l.holds = true → l.pc.pastAdmission = true
  owns : l.holds = true → l.Owns c
  pc : PcOk s c l.pc

/-- START was sent to this controller, whose group is alive. -/
def Controller.Running (k : Controller) : Prop := k.startSent = true ∧ k.groupAlive = true

/-- The recorded execution is this controller, authorized. -/
def Controller.Recorded (k : Controller) (token : String) (c : Coordinator) : Prop :=
  ∃ e, c.execution = some e ∧ e.token = token ∧ e.groupId = k.pid ∧ e.processIdentity = k.identity ∧
    e.state = .startAuthorized

structure Inv (s : Sys) (c : Coordinator) : Prop where
  wf : c.WF
  db : s.db = [c.toRow]
  keyed : ∀ t l, s.launchers t = some l → l.options.token = t
  ownerKnown : ∀ o, c.owner = some o → s.Knows o.token o.pid o.processIdentity
  executionOwner : ∀ e, c.execution = some e → ∃ l, s.launchers e.ownerToken = some l ∧ l.pc.pastAdmission = true
  executionKnown : ∀ e, c.execution = some e → s.Leads e.token e.groupId e.processIdentity
  launcher : ∀ t l, s.launchers t = some l → l.alive = true → LauncherOk s c l
  running : ∀ t k, s.controllers t = some k → k.Running → k.Recorded t c
  accepted : ∀ t k, s.controllers t = some k → k.accepted = true → k.startSent = true

theorem inv_init : Inv initialSys .initial := by
  refine ⟨initial_wf, rfl, ?_, ?_, ?_, ?_, ?_, ?_, ?_⟩ <;> intro _ <;>
    simp [initialSys, Coordinator.initial]

/-! ## Launchers and controllers only evolve -/

structure Evolves (s s' : Sys) : Prop where
  launchers : ∀ t l, s.launchers t = some l → ∃ l', s'.launchers t = some l' ∧ l'.options = l.options ∧
    (l'.alive = true → l.alive = true) ∧ (l.pc.pastAdmission = true → l'.pc.pastAdmission = true)
  entered : ∀ t l', s'.launchers t = some l' → (∃ l, s.launchers t = some l) ∨ s.FreshIdentity l'.options
  controllers : ∀ t k, s.controllers t = some k → ∃ k', s'.controllers t = some k' ∧ k'.pid = k.pid ∧
    k'.identity = k.identity ∧ (k.groupAlive = false → k'.groupAlive = false)

section Evolution

variable {s s' : Sys} (he : Evolves s s')

include he

theorem Evolves.knows {token identity : String} {pid : Int} (h : s.Knows token pid identity) :
    s'.Knows token pid identity := by
  obtain ⟨l, hl, hp, hi, hpast⟩ := h
  obtain ⟨l', hl', ho, -, hpast'⟩ := he.launchers _ _ hl
  exact ⟨l', hl', by rw [ho]; exact hp, by rw [ho]; exact hi, hpast' hpast⟩

theorem Evolves.observedRow {observed : ReconcilerStateRecord} (h : s.ObservedRow observed) : s'.ObservedRow observed := by
  obtain ⟨c, rfl, hown⟩ := h
  exact ⟨c, rfl, fun o ho => he.knows (hown o ho)⟩

/-- A dead owner stays dead: a launcher that enters has another birth identity. -/
theorem Evolves.observedDead {observed : ReconcilerStateRecord} (hrow : s.ObservedRow observed)
    (h : s.ObservedDead observed) : s'.ObservedDead observed := by
  rintro t l' hl' ha ⟨hp, hi⟩
  rcases he.entered t l' hl' with ⟨l, hl⟩ | hfresh
  · obtain ⟨l'', hl'', ho, hal, -⟩ := he.launchers t l hl
    rw [hl'] at hl''
    cases hl''
    exact h t l hl (hal ha) ⟨by rw [← ho]; exact hp, by rw [← ho]; exact hi⟩
  · obtain ⟨c, rfl, hown⟩ := hrow
    cases hc : c.owner with
    | none => simp [Coordinator.record, hc] at hp
    | some o =>
      obtain ⟨l, hl, hlp, hli, -⟩ := hown o hc
      simp only [Coordinator.record, hc, Option.map_some, Option.some.injEq] at hp hi
      exact hfresh _ l hl ⟨hlp.trans hp, hli.trans hi⟩

theorem Evolves.deadGroup {token : String} (h : s.DeadGroup token) : s'.DeadGroup token := by
  obtain ⟨k, hk, hd⟩ := h
  obtain ⟨k', hk', -, -, hd'⟩ := he.controllers _ _ hk
  exact ⟨k', hk', hd' hd⟩

theorem Evolves.leads {token identity : String} {groupId : Int} (h : s.Leads token groupId identity) :
    s'.Leads token groupId identity := by
  obtain ⟨k, hk, hp, hi⟩ := h
  obtain ⟨k', hk', hp', hi', -⟩ := he.controllers _ _ hk
  exact ⟨k', hk', hp'.trans hp, hi'.trans hi⟩

theorem Evolves.known {p : PreparedSupervisorPass} (h : p.Known s) : p.Known s' := ⟨h.1, he.leads h.2⟩

/-- What a point relies on survives when the recorded execution does. -/
theorem Evolves.pcOk {c c' : Coordinator} {pc : Pc}
    (hx : ∀ p : PreparedSupervisorPass, p.Authorized c.execution → pc.owning = true → p.Authorized c'.execution)
    (h : PcOk s c pc) : PcOk s' c' pc := by
  cases pc with
  | observing attempt observed => exact he.observedRow h
  | identifying attempt observed pidAlive => exact ⟨he.observedRow h.1, fun hd => he.observedDead h.1 (h.2 hd)⟩
  | deciding attempt observed pidAlive identity => exact ⟨he.observedRow h.1, fun hd => he.observedDead h.1 (h.2 hd)⟩
  | terminatingPrior g e => exact he.leads h
  | clearingPrior g e => exact he.deadGroup h
  | registering g p | registered g p | aborting g p r | awaiting g p | cleaning g p r => exact he.known h
  | starting g p => exact ⟨he.known h.1, hx p h.2 rfl⟩
  | clearing g p after => exact ⟨he.known h.1, he.deadGroup h.2⟩
  | _ => trivial

end Evolution

/-! ## What one launcher's step does to the row -/

/-- The owner's pid and birth identity belong to no live launcher. -/
def Sys.OwnerDead (s : Sys) (c : Coordinator) : Prop := s.ObservedDead c.record

/-- A label that answers no registration and finishes no pass. -/
def Event.quiet : Event → Bool
  | .registered .. | .finished .. => false
  | _ => true

/-- Launcher `l` takes the coordinator from `c` to `c'` in a step labelled `e`. -/
inductive Change (s : Sys) (l : Launcher) (c : Coordinator) : Event → Coordinator → Prop
  | keep {e : Event} : e.quiet = true → Change s l c e c
  | coalesce : c.requested < maxSafeInteger →
      Change s l c (.registered l.options.token
        (.coalesced (c.requested + 1) (c.owner.map (·.pid)) (c.owner.map (·.callerName)))) c.coalesce
  | acquire : c.requested < maxSafeInteger → l.pc.pastAdmission = false → s.OwnerDead c →
      Change s l c (.registered l.options.token
        (.owner (c.requested + 1) c.completed c.owner.isSome (c.owner.map (·.pid)) c.execution.isSome))
        (c.acquire l.options)
  | continuePass (o : Owner) (g now : Int) (success : Bool) : c.OwnedBy o l.options.token l.options.pid →
      c.execution = none → o.running = g → g < c.requested → isSafeNonNegativeInteger (some now) = true →
      Change s l c (.finished l.options.token g success
        (.continue c.requested (c.completedAfter (l.finishOptions g success now)) success))
        (c.continuePass (l.finishOptions g success now) o)
  | stop (o : Owner) (g now : Int) (success : Bool) : c.OwnedBy o l.options.token l.options.pid →
      c.execution = none → o.running = g → c.requested ≤ g →
      Change s l c (.finished l.options.token g success
        (if success then .stopSuccess (c.completedAfter (l.finishOptions g success now))
          else .stopFailed (c.completedAfter (l.finishOptions g success now))))
        (c.stop (l.finishOptions g success now))
  | beat (o : Owner) (now : Int) : c.OwnedBy o l.options.token l.options.pid →
      isSafeNonNegativeInteger (some now) = true → Change s l c .other (c.beat o now)
  | release (o : Owner) : c.OwnedBy o l.options.token l.options.pid → c.execution = none →
      Change s l c .other c.release
  | registerExecution (o : Owner) (g : Int) (p : PreparedSupervisorPass) :
      c.OwnedBy o l.options.token l.options.pid → c.execution = none → o.running = g →
      assertExecutionOptions (l.executionOptions g p) = .ok () → p.Known s →
      Change s l c .other (c.registerExecution (l.executionOptions g p))
  | authorize (o : Owner) (e : ActiveExecutionRecord) : c.OwnedBy o l.options.token l.options.pid →
      c.execution = some e → e.state = .registered → Change s l c .other (c.authorize e)
  | clearExecution (o : Owner) (e : ActiveExecutionRecord) : c.OwnedBy o l.options.token l.options.pid →
      c.execution = some e → s.DeadGroup e.token → Change s l c .other c.clearExecution

section Changes

variable {s : Sys} {l : Launcher} {c c' : Coordinator} {e : Event}

def Owner.SameHolder (o o' : Owner) : Prop :=
  o'.token = o.token ∧ o'.pid = o.pid ∧ o'.processIdentity = o.processIdentity

/-- An owner after the step is the owner before it, or the launcher that took the row. -/
theorem Change.owner (h : Change s l c e c') {o' : Owner} (ho' : c'.owner = some o') :
    (∃ o, c.owner = some o ∧ o.SameHolder o') ∨
      (c' = c.acquire l.options ∧ o'.token = l.options.token ∧ o'.pid = l.options.pid ∧
        o'.processIdentity = l.options.processIdentity) := by
  have hkeep : c.owner = some o' → ∃ o, c.owner = some o ∧ o.SameHolder o' := fun h => ⟨o', h, rfl, rfl, rfl⟩
  cases h with
  | keep | coalesce | registerExecution | authorize | clearExecution => exact .inl (hkeep ho')
  | acquire => cases ho'; exact .inr ⟨rfl, rfl, rfl, rfl⟩
  | continuePass o g now success ho => cases ho'; exact .inl ⟨o, ho.1, rfl, rfl, rfl⟩
  | beat o now ho => cases ho'; exact .inl ⟨o, ho.1, rfl, rfl, rfl⟩
  | stop | release => cases ho'

def ActiveExecutionRecord.SameController (x x' : ActiveExecutionRecord) : Prop :=
  x'.token = x.token ∧ x'.groupId = x.groupId ∧ x'.processIdentity = x.processIdentity ∧ x'.ownerToken = x.ownerToken

theorem Change.execution (h : Change s l c e c') {x' : ActiveExecutionRecord} (hx' : c'.execution = some x') :
    (∃ x, c.execution = some x ∧ x.SameController x') ∨
      (x'.ownerToken = l.options.token ∧ (∃ o pid, c.OwnedBy o l.options.token pid) ∧
        s.Leads x'.token x'.groupId x'.processIdentity) := by
  have hkeep : c.execution = some x' → ∃ x, c.execution = some x ∧ x.SameController x' :=
    fun h => ⟨x', h, rfl, rfl, rfl, rfl⟩
  cases h with
  | keep | coalesce | acquire | continuePass | stop | beat | release => exact .inl (hkeep hx')
  | registerExecution o g p ho _ _ _ hp => cases hx'; exact .inr ⟨rfl, ⟨o, _, ho⟩, hp.2⟩
  | authorize o x ho hx => cases hx'; exact .inl ⟨x, hx, rfl, rfl, rfl, rfl⟩
  | clearExecution => cases hx'

/-- Every change but an admission is made by the launcher that owns the row. -/
theorem Change.owned (h : Change s l c e c') :
    (∃ o pid, c.OwnedBy o l.options.token pid) ∨ s.OwnerDead c ∨ (c'.owner = c.owner ∧ c'.execution = c.execution) := by
  cases h with
  | keep | coalesce => exact .inr (.inr ⟨rfl, rfl⟩)
  | acquire _ _ hd => exact .inr (.inl hd)
  | continuePass o _ _ _ ho | stop o _ _ _ ho | beat o _ ho | release o ho | registerExecution o _ _ ho
  | authorize o _ ho | clearExecution o _ ho => exact .inl ⟨o, _, ho⟩

variable (hi : Inv s c)

include hi

theorem Change.wf (hl : s.launchers l.options.token = some l) (h : Change s l c e c') : c'.WF := by
  have hc := hi.wf
  cases h with
  | keep => exact hc
  | coalesce hlt => exact Coordinator.coalesce_wf hc hlt
  | acquire hlt hpast =>
    refine Coordinator.acquire_wf hc hlt l.valid fun x hx hsame => ?_
    -- the recorded execution's owner is past its admission, this launcher is not
    obtain ⟨l₂, hl₂, hp⟩ := hi.executionOwner x hx
    rw [hsame, hl] at hl₂
    cases hl₂
    rw [hpast] at hp
    cases hp
  | continuePass o g now success ho hx hrun hlt hclock =>
    exact Coordinator.continuePass_wf hc ho.1 hx hrun hlt hclock
  | stop o g now success ho hx hrun => exact Coordinator.stop_wf hc ho.1 hx hrun
  | beat o now ho hclock => exact Coordinator.beat_wf hc ho.1 hclock
  | release o ho hx => exact Coordinator.release_wf hc hx
  | registerExecution o g p ho hx hrun hv => exact Coordinator.registerExecution_wf hc ho.1 ho.2.1 hrun hv
  | authorize o x ho hx => exact Coordinator.authorize_wf hc hx
  | clearExecution => exact Coordinator.clearExecution_wf hc

/-- A controller that is running stays recorded. -/
theorem Change.running (h : Change s l c e c') {t : String} {k : Controller} (hk : s.controllers t = some k)
    (hr : k.Running) : k.Recorded t c' := by
  obtain ⟨x, hx, ht, hg, hid, hst⟩ := hi.running t k hk hr
  have hkeep : c'.execution = c.execution → k.Recorded t c' := fun h => ⟨x, by rw [h]; exact hx, ht, hg, hid, hst⟩
  cases h with
  | keep | coalesce | acquire | continuePass | stop | beat | release => exact hkeep rfl
  | registerExecution o g p ho hnone => rw [hnone] at hx; cases hx
  | authorize o y ho hy hreg => rw [hy] at hx; cases hx; rw [hreg] at hst; cases hst
  | clearExecution o y ho hy hdead =>
    rw [hy] at hx
    cases hx
    obtain ⟨k', hk', hd⟩ := hdead
    rw [ht, hk] at hk'
    cases hk'
    rw [hr.2] at hd
    cases hd

/-- Every other live owner finds its row and its execution as they were. -/
theorem Change.foreign (h : Change s l c e c') {t : String} {l₂ : Launcher} (hl₂ : s.launchers t = some l₂)
    (hne : t ≠ l.options.token) (ha : l₂.alive = true) (hown : l₂.Owns c) :
    c'.owner = c.owner ∧ c'.execution = c.execution := by
  obtain ⟨o₂, ho₂, htok, hpid, hid, -⟩ := hown
  rcases h.owned with ⟨o, pid, ho, hto, -⟩ | hdead | hkeep
  · rw [ho] at ho₂
    cases ho₂
    exact absurd ((hi.keyed t l₂ hl₂).symm.trans (htok.symm.trans hto)) hne
  · exact absurd ⟨by simp [Coordinator.record, ho₂, hpid], by simp [Coordinator.record, ho₂, hid]⟩ (hdead t l₂ hl₂ ha)
  · exact hkeep

end Changes

/-! ## The step of a launcher, and of a controller -/

section Put

variable {s : Sys} {c c' : Coordinator} {l l' : Launcher} {e : Event}

/-- The system after launcher `l` became `l'` and the table the row of `c'`. -/
def Sys.moved (s : Sys) (c' : Coordinator) (l' : Launcher) : Sys := { s with db := [c'.toRow] }.put l'

theorem Sys.moved_launchers (ho : l'.options = l.options) (t : String) :
    (s.moved c' l').launchers t = if t = l.options.token then some l' else s.launchers t := by
  simp only [moved, put, ho, Function.update_apply]

theorem evolves_moved (hl : s.launchers l.options.token = some l) (ha : l.alive = true) (ho : l'.options = l.options)
    (hpast : l.pc.pastAdmission = true → l'.pc.pastAdmission = true) : Evolves s (s.moved c' l') where
  launchers t l₂ hl₂ := by
    rw [Sys.moved_launchers ho]
    split
    · rename_i ht
      rw [ht, hl] at hl₂
      cases hl₂
      exact ⟨l', rfl, ho, fun _ => ha, hpast⟩
    · exact ⟨l₂, hl₂, rfl, id, id⟩
  entered t l₂ hl₂ := by
    rw [Sys.moved_launchers ho] at hl₂
    split at hl₂
    · rename_i ht
      exact .inl ⟨l, ht ▸ hl⟩
    · exact .inl ⟨l₂, hl₂⟩
  controllers t k hk := ⟨k, hk, rfl, rfl, id⟩

theorem Coordinator.ne_acquire {options : RegisterReconciliationOptions} (h : c'.requested = c.requested) :
    c' ≠ c.acquire options := by
  rintro rfl
  simp only [acquire] at h
  omega

/-- A launcher's step keeps the invariant when its new point may rely on what it does. -/
theorem inv_moved (hi : Inv s c) (hl : s.launchers l.options.token = some l) (ha : l.alive = true)
    (hch : Change s l c e c') (ho : l'.options = l.options)
    (hpast : l.pc.pastAdmission = true → l'.pc.pastAdmission = true)
    (htook : c' = c.acquire l.options → l'.pc.pastAdmission = true)
    (hok : l'.alive = true → LauncherOk s c' l') : Inv (s.moved c' l') c' := by
  have hev : Evolves s (s.moved c' l') := evolves_moved hl ha ho hpast
  have hl' : (s.moved c' l').launchers l.options.token = some l' := by rw [Sys.moved_launchers ho, if_pos rfl]
  refine
    { wf := hch.wf hi hl
      db := rfl
      keyed := fun t l₂ h => ?_
      ownerKnown := fun o' ho' => ?_
      executionOwner := fun x' hx' => ?_
      executionKnown := fun x' hx' => ?_
      launcher := fun t l₂ h ha₂ => ?_
      running := fun t k hk hr => hch.running hi hk hr
      accepted := hi.accepted }
  · rw [Sys.moved_launchers ho] at h
    split at h
    · cases h; rw [ho]; exact (by assumption : t = _).symm
    · exact hi.keyed t l₂ h
  · rcases hch.owner ho' with ⟨o, hco, ht, hp, hid⟩ | ⟨hacq, ht, hp, hid⟩
    · rw [ht, hp, hid]
      exact hev.knows (hi.ownerKnown o hco)
    · exact ⟨l', by rw [ht]; exact hl', by rw [ho, hp], by rw [ho, hid], htook hacq⟩
  · rcases hch.execution hx' with ⟨x, hx, -, -, -, hot⟩ | ⟨hot, ⟨o, pid, how⟩, -⟩
    · obtain ⟨l₂, hl₂, hp⟩ := hi.executionOwner x hx
      obtain ⟨l₃, hl₃, -, -, hp'⟩ := hev.launchers _ _ hl₂
      exact ⟨l₃, by rw [hot]; exact hl₃, hp' hp⟩
    · obtain ⟨l₂, hl₂, -, -, hp⟩ := hi.ownerKnown o how.1
      rw [how.2.1, hl] at hl₂
      cases hl₂
      exact ⟨l', by rw [hot]; exact hl', hpast hp⟩
  · rcases hch.execution hx' with ⟨x, hx, ht, hg, hid, -⟩ | ⟨-, -, hlead⟩
    · rw [ht, hg, hid]
      exact hev.leads (hi.executionKnown x hx)
    · exact hev.leads hlead
  · rw [Sys.moved_launchers ho] at h
    split at h
    · cases h
      have hk := hok ha₂
      exact { hk with pc := hev.pcOk (fun p hp _ => hp) hk.pc }
    · rename_i hne
      have hk := hi.launcher t l₂ h ha₂
      have hforeign : l₂.holds = true → c'.owner = c.owner ∧ c'.execution = c.execution :=
        fun hh => hch.foreign hi h hne ha₂ (hk.owns hh)
      refine { hk with
        owns := fun hh => ?_
        pc := hev.pcOk (fun p hp hown => by rw [(hforeign (hk.owning hown)).2]; exact hp) hk.pc }
      obtain ⟨o, hco, hrest⟩ := hk.owns hh
      exact ⟨o, by rw [(hforeign hh).1]; exact hco, hrest⟩

theorem Inv.put_eq (hi : Inv s c) : s.put l' = s.moved c l' := by
  rw [Sys.moved, ← hi.db]

/-- `pc'` asks no more of the owner than `pc`. -/
structure Pc.Leads (pc pc' : Pc) : Prop where
  owning : pc'.owning = true → pc.owning = true
  past : pc.pastAdmission = true → pc'.pastAdmission = true
  generation : ∀ g, pc'.generation = some g → pc.generation = some g

/-- Within the admission. -/
theorem Pc.leads_admission {pc pc' : Pc} (h : pc.pastAdmission = false) (h' : pc'.pastAdmission = false) :
    pc.Leads pc' := by
  have hnone : pc'.owning = false ∧ pc'.generation = none := by
    cases pc' <;> first | exact ⟨rfl, rfl⟩ | cases h'
  refine ⟨fun ho => ?_, fun hp => ?_, fun g hg => ?_⟩
  · rw [hnone.1] at ho; cases ho
  · rw [h] at hp; cases hp
  · rw [hnone.2] at hg; cases hg

theorem Pc.leads_ending {pc : Pc} (h : pc.owning = true) : pc.Leads .ending :=
  ⟨fun _ => h, fun _ => rfl, fun _ hg => by cases hg⟩

theorem Pc.leads_ended (pc : Pc) : pc.Leads .ended := ⟨(fun h => by cases h), fun _ => rfl, fun _ h => by cases h⟩

theorem LauncherOk.ended (l : Launcher) : LauncherOk s c { l with pc := .ended, holds := false } :=
  ⟨(fun h => by cases h), fun _ => rfl, (fun h => by cases h), trivial⟩

theorem LauncherOk.goto (h : LauncherOk s c l) {pc : Pc} (hlead : l.pc.Leads pc)
    (hown : ∀ o, c.owner = some o → ∃ o', c'.owner = some o' ∧ o.SameHolder o' ∧ o'.running = o.running)
    (hpc : PcOk s c' pc) : LauncherOk s c' (l.goto pc) where
  owning ho := h.owning (hlead.owning ho)
  past hh := hlead.past (h.past hh)
  owns hh := by
    obtain ⟨o, ho, ht, hp, hid, hrun⟩ := h.owns hh
    obtain ⟨o', ho', ⟨ht', hp', hid'⟩, hrun'⟩ := hown o ho
    exact ⟨o', ho', ht'.trans ht, hp'.trans hp, hid'.trans hid, fun g hg => hrun'.trans (hrun g (hlead.generation g hg))⟩
  pc := hpc

/-- A step that touches neither the table nor a controller. -/
theorem inv_goto (hi : Inv s c) (hl : s.launchers l.options.token = some l) (ha : l.alive = true) {pc : Pc}
    (hlead : l.pc.Leads pc) (hpc : PcOk s c pc) : Inv (s.put (l.goto pc)) c := by
  rw [hi.put_eq]
  exact inv_moved hi hl ha (.keep (e := .other) rfl) rfl hlead.past (fun h => absurd h (Coordinator.ne_acquire rfl))
    fun _ => (hi.launcher _ _ hl ha).goto hlead (fun o ho => ⟨o, ho, ⟨rfl, rfl, rfl⟩, rfl⟩) hpc

theorem evolves_putController {t : String} {k' : Controller}
    (h : ∀ k, s.controllers t = some k → k'.pid = k.pid ∧ k'.identity = k.identity ∧
      (k.groupAlive = false → k'.groupAlive = false)) : Evolves s (s.putController t k') where
  launchers t₂ l hl := ⟨l, hl, rfl, id, id⟩
  entered t₂ l hl := .inl ⟨l, hl⟩
  controllers t₂ k hk := by
    simp only [Sys.putController, Function.update_apply]
    split
    · rename_i ht
      exact ⟨k', rfl, h k (ht ▸ hk)⟩
    · exact ⟨k, hk, rfl, rfl, id⟩

/-- A controller spawned, or changed within its own process. -/
theorem inv_putController (hi : Inv s c) {t : String} {k' : Controller}
    (h : ∀ k, s.controllers t = some k → k'.pid = k.pid ∧ k'.identity = k.identity ∧
      (k.groupAlive = false → k'.groupAlive = false))
    (hr : k'.Running → k'.Recorded t c) (hacc : k'.accepted = true → k'.startSent = true) :
    Inv (s.putController t k') c := by
  have hev := evolves_putController h
  refine
    { wf := hi.wf
      db := hi.db
      keyed := hi.keyed
      ownerKnown := fun o ho => hev.knows (hi.ownerKnown o ho)
      executionOwner := hi.executionOwner
      executionKnown := fun x hx => hev.leads (hi.executionKnown x hx)
      launcher := fun t₂ l hl ha => ?_
      running := fun t₂ k hk => ?_
      accepted := fun t₂ k hk => ?_ }
  · have hk := hi.launcher t₂ l hl ha
    exact { hk with pc := hev.pcOk (fun p hp _ => hp) hk.pc }
  all_goals
    simp only [Sys.putController, Function.update_apply] at hk
    split at hk
  · rename_i ht
    cases hk
    exact ht ▸ hr
  · exact hi.running t₂ k hk
  · cases hk; exact hacc
  · exact hi.accepted t₂ k hk

/-- A launcher enters at the top of its admission. -/
theorem inv_enter (hi : Inv s c) (hnew : s.launchers l.options.token = none) (hfresh : s.FreshIdentity l.options)
    (hpc : l.pc = .admission 0) (hh : l.holds = false) : Inv (s.put l) c := by
  have hother : ∀ t l₂, s.launchers t = some l₂ → (s.put l).launchers t = some l₂ := fun t l₂ h => by
    simp only [Sys.put, Function.update_apply]
    split
    · rename_i ht
      rw [ht, hnew] at h
      cases h
    · exact h
  have hback : ∀ t l₂, (s.put l).launchers t = some l₂ → (t = l.options.token ∧ l₂ = l) ∨ s.launchers t = some l₂ := by
    intro t l₂ h
    simp only [Sys.put, Function.update_apply] at h
    split at h
    · cases h; exact .inl ⟨by assumption, rfl⟩
    · exact .inr h
  have hev : Evolves s (s.put l) :=
    { launchers := fun t l₂ h => ⟨l₂, hother t l₂ h, rfl, id, id⟩
      entered := fun t l₂ h => by
        rcases hback t l₂ h with ⟨-, rfl⟩ | h
        · exact .inr hfresh
        · exact .inl ⟨l₂, h⟩
      controllers := fun t k hk => ⟨k, hk, rfl, rfl, id⟩ }
  refine
    { wf := hi.wf
      db := hi.db
      keyed := fun t l₂ h => ?_
      ownerKnown := fun o ho => hev.knows (hi.ownerKnown o ho)
      executionOwner := fun x hx => (hi.executionOwner x hx).imp fun l₂ h => ⟨hother _ l₂ h.1, h.2⟩
      executionKnown := fun x hx => hev.leads (hi.executionKnown x hx)
      launcher := fun t l₂ h ha => ?_
      running := hi.running
      accepted := hi.accepted }
  · rcases hback t l₂ h with ⟨ht, rfl⟩ | h
    · exact ht.symm
    · exact hi.keyed t l₂ h
  · rcases hback t l₂ h with ⟨-, rfl⟩ | h
    · exact ⟨by simp [hpc, Pc.owning, Pc.generation], by simp [hh], by simp [hh], by simp [hpc, PcOk]⟩
    · have hk := hi.launcher t l₂ h ha
      exact { hk with pc := hev.pcOk (fun p hp _ => hp) hk.pc }

end Put

end GitCommitsPush.Reconciliation
