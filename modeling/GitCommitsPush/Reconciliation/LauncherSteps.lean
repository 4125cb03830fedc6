/-
  GitCommitsPush.Reconciliation.LauncherSteps — every step of `launcherMachine` is one
  `Change` of the coordinator and keeps `Inv`.

  The cases follow `LauncherStep`. A step that calls no coordinator operation is
  `inv_goto`; one that does is the operation's inversion lemma, then `inv_moved`.
  `step_cases` is the summary the claims use, `inv_run` the induction.
-/

import GitCommitsPush.Reconciliation.LauncherInvariant

namespace GitCommitsPush.Reconciliation

open GitCommitsPush.Lib.JsText
open GitCommitsPush.Lib.Runs

/-! ## Liveness reads -/

section Liveness

variable {s : Sys} {observed : ReconcilerStateRecord}

theorem Launcher.live (s : Sys) {t : String} {l : Launcher} (hl : s.launchers t = some l) (ha : l.alive = true) :
    s.LiveProcess l.options.pid l.options.processIdentity := .inl ⟨t, l, hl, ha, rfl, rfl⟩

theorem observedDead_of_probe (h : ∀ pid identity, observed.ownerPid = some pid → ¬ s.LiveProcess pid identity) :
    s.ObservedDead observed :=
  fun _ l hl ha hp => h l.options.pid l.options.processIdentity hp.1 (Launcher.live s hl ha)

/-- With a live pid, only another identity answers that the owner is dead. -/
theorem observedDead_of_identify {identity : Option String} {c : Coordinator}
    (h : ∀ pid current, observed.ownerPid = some pid → s.LiveProcess pid current →
      identity = none ∨ identity = some current) (hrow : observed = c.record)
    (hdead : ownerIsAlive ⟨fun _ => true, fun _ => identity⟩ observed = false) : s.ObservedDead observed := by
  rintro t l hl ha ⟨hp, hid⟩
  subst hrow
  cases ho : c.owner with
  | none => simp [Coordinator.record, ho] at hp
  | some o =>
    have hread := h l.options.pid l.options.processIdentity hp (Launcher.live s hl ha)
    simp only [ownerIsAlive, Coordinator.record, ho, Option.map_some, Option.some.injEq] at hdead hid
    rcases hread with rfl | rfl
    · simp at hdead
    · simp [hid] at hdead

/-- A dead observation of an unchanged owner is a dead owner. -/
theorem ownerDead_of_matches {c : Coordinator} (hm : ownerMatchesObservation c.record observed = true)
    (hd : s.ObservedDead observed) : s.OwnerDead c := by
  simp only [ownerMatchesObservation, Bool.and_eq_true, beq_iff_eq] at hm
  obtain ⟨⟨⟨⟨-, hp⟩, hid⟩, -⟩, -⟩ := hm
  rintro t l hl ha ⟨hp', hid'⟩
  exact hd t l hl ha ⟨hp ▸ hp', hid ▸ hid'⟩

end Liveness

theorem deadGroup_of_gone {s : Sys} {token identity : String} {groupId : Int} (hlead : s.Leads token groupId identity)
    (hgone : s.GroupGone groupId identity) : s.DeadGroup token := by
  obtain ⟨k, hk, hp, hid⟩ := hlead
  exact ⟨k, hk, hgone token k hk hp hid⟩

/-! ## The steps -/

section Steps

variable {s : Sys} {c : Coordinator} {l : Launcher}

/-- The summary of a launcher's step. -/
def Keeps (s : Sys) (c : Coordinator) (l : Launcher) (e : Event) (s' : Sys) : Prop :=
  ∃ c', Change s l c e c' ∧ Inv s' c'

theorem Keeps.goto (hi : Inv s c) (hl : s.launchers l.options.token = some l) (ha : l.alive = true) {pc : Pc}
    (hlead : l.pc.Leads pc) (hpc : PcOk s c pc) : Keeps s c l .other (s.put (l.goto pc)) :=
  ⟨c, .keep rfl, inv_goto hi hl ha hlead hpc⟩

/-- An operation that left the table alone. -/
theorem Keeps.unchanged (hi : Inv s c) (hl : s.launchers l.options.token = some l) (ha : l.alive = true) {pc : Pc}
    {db : Db} (hdb : db = [c.toRow]) (hlead : l.pc.Leads pc) (hpc : PcOk s c pc) :
    Keeps s c l .other ({ s with db := db }.put (l.goto pc)) := by
  subst hdb
  rw [← hi.db]
  exact Keeps.goto hi hl ha hlead hpc

theorem keeps_attempt (hi : Inv s c) (hl : s.launchers l.options.token = some l) (ha : l.alive = true) {attempt : Nat}
    {observed : ReconcilerStateRecord} {pidAlive : Bool} {identity : Option String}
    {res : Except ReconcilerError RegisterReconciliationResult} {db : Db}
    (hpc : l.pc = .deciding attempt observed pidAlive identity)
    (hroom : ∀ row ∈ s.db, row.requestedGeneration < maxSafeInteger)
    (h : registrationAttempt l.options observed (ownerIsAlive ⟨fun _ => pidAlive, fun _ => identity⟩ observed) s.db =
      (res, db)) :
    Keeps s c l (.ofRegistration l.options.token res) ({ s with db := db }.put (l.afterAttempt attempt res)) := by
  have hk := hi.launcher _ _ hl ha
  have hpast : l.pc.pastAdmission = false := by rw [hpc]; rfl
  have hh : l.holds = false := by
    by_contra hne
    rw [hk.past (by simpa using hne)] at hpast
    cases hpast
  rw [hi.db] at h hroom
  have hlt : c.requested < maxSafeInteger := hroom _ List.mem_cons_self
  cases res with
  | error e =>
    have hdb := attempt_error (e := e) (congrArg Prod.fst h)
    rw [h] at hdb
    have hgoto : ∀ pc : Pc, pc.owning = false → pc.generation = none → PcOk s c pc →
        Keeps s c l .other ({ s with db := db }.put (l.goto pc)) := fun pc h1 h2 hok =>
      Keeps.unchanged hi hl ha hdb ⟨by simp [h1], by simp [hpast], by simp [h2]⟩ hok
    cases e with
    | ownerChanged =>
      simp only [Launcher.afterAttempt, Event.ofRegistration]
      split
      · exact hgoto _ rfl rfl trivial
      · exact hgoto _ rfl rfl trivial
    | _ => exact hgoto _ rfl rfl trivial
  | ok r =>
    obtain ⟨hm, ⟨-, rfl, rfl⟩ | ⟨hdead, rfl, rfl⟩⟩ := attempt_ok hi.wf h
    · refine ⟨_, .coalesce hlt, inv_moved hi hl ha (.coalesce hlt) rfl (fun _ => rfl) (fun _ => rfl) fun _ => ?_⟩
      exact ⟨(fun h => by cases h), fun _ => rfl, (fun h => by cases hh.symm.trans h), trivial⟩
    · have hd : s.OwnerDead c := by
        have hok := hk.pc
        rw [hpc] at hok
        exact ownerDead_of_matches hm (hok.2 hdead)
      have hch := Change.acquire hlt hpast hd
      refine ⟨_, hch, inv_moved hi hl ha hch rfl (fun _ => rfl) (fun _ => rfl) fun _ => ?_⟩
      refine ⟨fun _ => rfl, fun _ => rfl, fun _ => ⟨_, rfl, rfl, rfl, rfl, ?_⟩, trivial⟩
      rintro g ⟨⟩
      rfl

theorem keeps_clear (next : Except ReconcilerError Bool → Pc) (hi : Inv s c)
    (hl : s.launchers l.options.token = some l) (ha : l.alive = true) {token : String}
    {res : Except ReconcilerError Bool} {db : Db}
    (h : clearActiveExecution s.db (l.fence token) = (res, db)) (hdead : s.DeadGroup token)
    (hlead : ∀ res, l.pc.Leads (next res)) (hpc : ∀ res c, PcOk s c (next res)) :
    Keeps s c l .other ({ s with db := db }.put (l.goto (next res))) := by
  rw [hi.db] at h
  cases res with
  | error e =>
    have hdb := clearExecution_error (e := e) (congrArg Prod.fst h)
    rw [h] at hdb
    exact Keeps.unchanged hi hl ha hdb (hlead _) (hpc _ _)
  | ok b =>
    obtain ⟨⟨o, ho⟩, ⟨e, he, htok, rfl, rfl⟩ | ⟨rfl, hdb⟩⟩ := clearExecution_ok hi.wf h
    · have hch : Change s l c .other c.clearExecution := .clearExecution o e ho he (by rw [htok]; exact hdead)
      exact ⟨_, hch, inv_moved hi hl ha hch rfl (hlead _).past (fun h => absurd h (Coordinator.ne_acquire rfl)) fun _ =>
        (hi.launcher _ _ hl ha).goto (hlead _) (fun o ho => ⟨o, ho, ⟨rfl, rfl, rfl⟩, rfl⟩) (hpc _ _)⟩
    · exact Keeps.unchanged hi hl ha hdb (hlead _) (hpc _ _)

theorem keeps_register (hi : Inv s c) (hl : s.launchers l.options.token = some l) (ha : l.alive = true) {g : Int}
    {p : PreparedSupervisorPass} {res : Except ReconcilerError ActiveExecutionRecord} {db : Db}
    (hpc : l.pc = .registering g p) (h : registerActiveExecution s.db (l.executionOptions g p) = (res, db)) :
    Keeps s c l .other ({ s with db := db }.put (l.afterRegister g p res)) := by
  have hok := hi.launcher _ _ hl ha
  have hp : p.Known s := by have := hok.pc; rwa [hpc] at this
  rw [hi.db] at h
  cases res with
  | error e =>
    have hdb := registerExecution_error (e := e) (congrArg Prod.fst h)
    rw [h] at hdb
    exact Keeps.unchanged hi hl ha hdb ⟨by simp [hpc, Pc.owning, Pc.generation], fun _ => rfl, by simp [hpc, Pc.generation]⟩ hp
  | ok x =>
    obtain ⟨o, ho, hnone, hrun, hv, rfl⟩ := registerExecution_ok hi.wf h
    have hch : Change s l c .other (c.registerExecution (l.executionOptions g p)) :=
      .registerExecution o g p ho hnone hrun hv hp
    exact ⟨_, hch, inv_moved hi hl ha hch rfl (fun _ => rfl) (fun h => absurd h (Coordinator.ne_acquire rfl)) fun _ =>
      hok.goto ⟨by simp [hpc, Pc.owning, Pc.generation], fun _ => rfl, by simp [hpc, Pc.generation]⟩
        (fun o ho => ⟨o, ho, ⟨rfl, rfl, rfl⟩, rfl⟩) hp⟩

/-- The controller a launcher prepared is the one its execution token records. -/
theorem authorized_of_token (hi : Inv s c) {p : PreparedSupervisorPass} {e : ActiveExecutionRecord} (hp : p.Known s)
    (he : c.execution = some e) (ht : e.token = p.executionToken) : p.Authorized (c.authorize e).execution := by
  obtain ⟨k, hk, hg, hid⟩ := hp.2
  obtain ⟨k', hk', hg', hid'⟩ := hi.executionKnown e he
  rw [ht, hk] at hk'
  cases hk'
  exact ⟨_, rfl, ht, hg'.symm.trans hg, hid'.symm.trans hid, rfl⟩

theorem keeps_authorize (hi : Inv s c) (hl : s.launchers l.options.token = some l) (ha : l.alive = true) {g : Int}
    {p : PreparedSupervisorPass} {res : Except ReconcilerError Bool} {db : Db} (hpc : l.pc = .registered g p)
    (h : authorizeActiveExecutionStart s.db (l.fence p.executionToken) = (res, db)) :
    Keeps s c l .other ({ s with db := db }.put (l.afterAuthorize g p res)) := by
  have hok := hi.launcher _ _ hl ha
  have hp : p.Known s := by have := hok.pc; rwa [hpc] at this
  have hlead : ∀ pc : Pc, pc.pastAdmission = true → (∀ g', pc.generation = some g' → g = g') → l.pc.Leads pc :=
    fun pc h1 h2 => ⟨by simp [hpc, Pc.owning, Pc.generation], fun _ => h1, by simpa [hpc, Pc.generation] using h2⟩
  rw [hi.db] at h
  cases res with
  | error e =>
    have hdb := authorize_error (e := e) (congrArg Prod.fst h)
    rw [h] at hdb
    exact Keeps.unchanged hi hl ha hdb (hlead _ rfl (by simp [Pc.generation])) hp
  | ok b =>
    obtain ⟨⟨o, ho⟩, ⟨e, he, htok, -, hreg, rfl, rfl⟩ | ⟨rfl, hdb⟩⟩ := authorize_ok hi.wf h
    · have hch : Change s l c .other (c.authorize e) := .authorize o e ho he hreg
      exact ⟨_, hch, inv_moved hi hl ha hch rfl (fun _ => rfl) (fun h => absurd h (Coordinator.ne_acquire rfl)) fun _ =>
        hok.goto (hlead _ rfl (by simp [Pc.generation])) (fun o ho => ⟨o, ho, ⟨rfl, rfl, rfl⟩, rfl⟩)
          ⟨hp, authorized_of_token hi hp he htok⟩⟩
    · exact Keeps.unchanged hi hl ha hdb (hlead _ rfl (by simp [Pc.generation])) hp

theorem keeps_finish (hi : Inv s c) (hl : s.launchers l.options.token = some l) (ha : l.alive = true) {g now : Int}
    {success : Bool} {next : Int → Pc} {res : Except ReconcilerError FinishReconciliationResult} {db : Db}
    (hown : l.pc.owning = true) (hnext : ∀ g, (next g).pastAdmission = true ∧ (next g).generation = some g)
    (hpc : ∀ g c, PcOk s c (next g)) (hnow : isSafeNonNegativeInteger (some now) = true)
    (h : finishReconciliationPass s.db (l.finishOptions g success now) = (res, db)) :
    Keeps s c l (.ofFinish l.options.token g success res) ({ s with db := db }.put (l.afterFinish next res)) := by
  have hok := hi.launcher _ _ hl ha
  have hh := hok.owning hown
  obtain ⟨o₀, ho₀, ht₀, hp₀, hid₀, -⟩ := hok.owns hh
  rw [hi.db] at h
  cases res with
  | error e =>
    have hdb := finish_error (e := e) (congrArg Prod.fst h)
    rw [h] at hdb
    exact Keeps.unchanged hi hl ha hdb (Pc.leads_ending hown) trivial
  | ok r =>
    obtain ⟨o, ho, hnone, hrun, hcases⟩ := finish_ok hi.wf h
    rcases hcases with ⟨hlt, rfl, rfl⟩ | ⟨hge, rfl, rfl⟩
    · have hch : Change s l c _ _ := .continuePass o g now success ho hnone hrun hlt hnow
      refine ⟨_, hch, inv_moved hi hl ha hch rfl (fun _ => (hnext _).1)
        (fun h => absurd h (Coordinator.ne_acquire rfl)) fun _ => ?_⟩
      have hoo : o₀ = o := by
        have h1 := ho₀.symm.trans ho.1
        exact Option.some.inj h1
      subst hoo
      refine ⟨fun _ => hh, fun _ => (hnext _).1, fun _ => ⟨_, rfl, ht₀, hp₀, hid₀, fun g' hg' => ?_⟩, hpc _ _⟩
      have hgen : (next c.requested).generation = some g' := hg'
      rw [(hnext _).2] at hgen
      exact Option.some.inj hgen
    · have hch : Change s l c _ _ := .stop o g now success ho hnone hrun hge
      have hput : l.afterFinish next (.ok (if (l.finishOptions g success now).success then
            .stopSuccess (c.completedAfter (l.finishOptions g success now))
          else .stopFailed (c.completedAfter (l.finishOptions g success now)))) =
          { l with pc := .ended, holds := false } := by cases success <;> rfl
      refine ⟨_, hch, ?_⟩
      rw [hput]
      exact inv_moved hi hl ha hch rfl (fun _ => rfl) (fun h => absurd h (Coordinator.ne_acquire rfl)) fun _ =>
        .ended l

theorem keeps_release (next : Except ReconcilerError Bool → Launcher) (hi : Inv s c)
    (hl : s.launchers l.options.token = some l) (ha : l.alive = true) {res : Except ReconcilerError Bool} {db : Db}
    (h : releaseReconciliationOwnership s.db ⟨l.options.token, l.options.pid⟩ = (res, db))
    (hopt : ∀ res, (next res).options = l.options)
    (hpast : ∀ res, l.pc.pastAdmission = true → (next res).pc.pastAdmission = true)
    (hfreed : ∀ c, (next (.ok true)).alive = true → LauncherOk s c (next (.ok true)))
    (hkept : ∀ res, res ≠ .ok true → (next res).alive = true → LauncherOk s c (next res)) :
    Keeps s c l .other ({ s with db := db }.put (next res)) := by
  rw [hi.db] at h
  have hsame : res ≠ .ok true → db = [c.toRow] → Keeps s c l .other ({ s with db := db }.put (next res)) := by
    rintro hne rfl
    exact ⟨c, .keep rfl, inv_moved hi hl ha (.keep (e := .other) rfl) (hopt _) (hpast _)
      (fun h => absurd h (Coordinator.ne_acquire rfl)) (hkept _ hne)⟩
  cases res with
  | error e =>
    have hdb := release_error (e := e) (congrArg Prod.fst h)
    rw [h] at hdb
    exact hsame (fun h => by cases h) hdb
  | ok b =>
    rcases release_ok hi.wf h with ⟨o, ho, hnone, rfl, rfl⟩ | ⟨rfl, hdb⟩
    · have hch : Change s l c .other c.release := .release o ho hnone
      exact ⟨_, hch, inv_moved hi hl ha hch (hopt _) (hpast _) (fun h => absurd h (Coordinator.ne_acquire rfl))
        (hfreed _)⟩
    · exact hsame (fun h => by cases h) hdb

theorem heartbeat_cases (hi : Inv s c) (observed : Db) (options : HeartbeatOptions) :
    (∃ o, c.OwnedBy o options.token options.pid ∧
        (heartbeatReconciler observed s.db options).2 = [(c.beat o options.nowEpochMs).toRow]) ∨
      (heartbeatReconciler observed s.db options).2 = [c.toRow] := by
  unfold heartbeatReconciler
  split
  · exact .inr hi.db
  · split
    · exact .inr hi.db
    · split
      · exact .inr hi.db
      · rename_i hup
        rw [hi.db] at hup
        exact heartbeat_ok hup

theorem keeps_heartbeat (hi : Inv s c) (hl : s.launchers l.options.token = some l) (ha : l.alive = true)
    {observed : Db} {now : Int} (hnow : isSafeNonNegativeInteger (some now) = true) :
    Keeps s c l .other { s with db := (heartbeatReconciler observed s.db ⟨l.options.token, l.options.pid, now⟩).2 } := by
  have hok := hi.launcher _ _ hl ha
  have hself : ∀ c' : Coordinator, { s with db := [c'.toRow] } = s.moved c' l := fun c' => by
    rw [Sys.moved, Sys.put, Function.update_eq_self_iff.mpr hl.symm]
  rcases heartbeat_cases hi observed ⟨l.options.token, l.options.pid, now⟩ with
    ⟨o, ho, hdb⟩ | hdb
  · have hch : Change s l c .other (c.beat o now) := .beat o now ho hnow
    rw [hdb, hself]
    refine ⟨_, hch, inv_moved hi hl ha hch rfl id (fun h => absurd h (Coordinator.ne_acquire rfl)) fun _ => ?_⟩
    refine { hok with owns := fun hh => ?_ }
    obtain ⟨o₁, ho₁, hrest⟩ := hok.owns hh
    have : o₁ = o := Option.some.inj (ho₁.symm.trans ho.1)
    subst this
    exact ⟨_, rfl, hrest⟩
  · rw [hdb, hself]
    exact ⟨c, .keep rfl, inv_moved hi hl ha (.keep (e := .other) rfl) rfl id
      (fun h => absurd h (Coordinator.ne_acquire rfl)) fun _ => hok⟩

/-- START sent to the recorded, authorized controller. -/
theorem inv_startSent (hi : Inv s c) (hl : s.launchers l.options.token = some l) (ha : l.alive = true) {g : Int}
    {p : PreparedSupervisorPass} {k : Controller} (hpc : l.pc = .starting g p)
    (hk : s.controllers p.executionToken = some k) (sent : Bool) (hacc : k.startSent = true → sent = true) :
    p.Known s ∧ Inv (s.putController p.executionToken { k with startSent := sent }) c ∧
      Evolves s (s.putController p.executionToken { k with startSent := sent }) := by
  have hok : p.Known s ∧ p.Authorized c.execution := by have := (hi.launcher _ _ hl ha).pc; rwa [hpc] at this
  obtain ⟨hp, e, he, ht, hg, hid, hst⟩ := hok
  obtain ⟨k', hk', hg', hid'⟩ := hp.2
  rw [hk] at hk'
  cases hk'
  have hsame : ∀ k₁, s.controllers p.executionToken = some k₁ → ({ k with startSent := sent } : Controller).pid = k₁.pid ∧
      ({ k with startSent := sent } : Controller).identity = k₁.identity ∧
        (k₁.groupAlive = false → ({ k with startSent := sent } : Controller).groupAlive = false) := fun k₁ hk₁ => by
    rw [hk] at hk₁
    cases hk₁
    exact ⟨rfl, rfl, id⟩
  exact ⟨hp, inv_putController hi hsame (fun _ => ⟨e, he, ht, hg.trans hg'.symm, hid.trans hid'.symm, hst⟩)
    fun h => hacc (hi.accepted _ k hk h), evolves_putController hsame⟩

/-- Where `recoverPriorExecution` goes once `clearActiveExecution` answered. -/
def Launcher.nextPrior (l : Launcher) (g : Int) : Except ReconcilerError Bool → Pc
  | .ok true => if l.aborted then .ending else .preparing g
  | _ => .ending

/-- Where `runOnePass` goes once `clearActiveExecution` answered. -/
def AfterClear.next (after : AfterClear) (g : Int) (p : PreparedSupervisorPass) : Except ReconcilerError Bool → Pc
  | .ok true => match after with
    | .returns pass => .passReturned g pass
    | .cancelled => .passReturned g cancelledPass
    | .rethrows => .ending
  | _ => match after with
    | .rethrows => .ending
    | _ => .cleaning g p true

/-- Every step of a launcher is one change of the coordinator and keeps the invariant. -/
theorem launcherStep_keeps (hi : Inv s c) (hl : s.launchers l.options.token = some l) (ha : l.alive = true) {e : Event}
    {s' : Sys} (h : LauncherStep s l e s') : Keeps s c l e s' := by
  have hok := hi.launcher _ _ hl ha
  -- a local step: the point it left, and what that point could rely on
  have hlocal : ∀ (pc₀ pc : Pc), l.pc = pc₀ → pc₀.Leads pc → (PcOk s c pc₀ → PcOk s c pc) →
      Keeps s c l .other (s.put (l.goto pc)) := fun pc₀ pc hpc hlead hp => by
    subst hpc
    exact Keeps.goto hi hl ha hlead (hp hok.pc)
  have hend : ∀ pc₀ : Pc, l.pc = pc₀ → pc₀.owning = true → Keeps s c l .other (s.put (l.goto .ending)) :=
    fun pc₀ hpc hown => hlocal pc₀ _ hpc (Pc.leads_ending hown) fun _ => trivial
  have hunless : ∀ (pc₀ pc : Pc), l.pc = pc₀ → pc₀.owning = true → pc₀.Leads pc → (PcOk s c pc₀ → PcOk s c pc) →
      Keeps s c l .other (s.put (l.unlessAborted pc)) := fun pc₀ pc hpc hown hlead hp => by
    unfold Launcher.unlessAborted
    split
    · exact hend pc₀ hpc hown
    · exact hlocal pc₀ pc hpc hlead hp
  cases h with
  | read attempt observed hpc hread =>
    refine hlocal _ _ hpc (Pc.leads_admission rfl rfl) fun _ => ?_
    rw [hi.db, Coordinator.read_toRow hi.wf] at hread
    cases hread
    exact ⟨c, rfl, hi.ownerKnown⟩
  | readFails attempt hpc => exact hlocal _ _ hpc (Pc.leads_ended _) fun _ => trivial
  | probe attempt observed pidAlive hpc hprobe =>
    refine hlocal _ _ hpc (Pc.leads_admission rfl rfl) fun hrow => ⟨hrow, fun hd => ?_⟩
    exact observedDead_of_probe (hprobe hd)
  | identify attempt observed pidAlive identity hpc hid =>
    refine hlocal _ _ hpc (Pc.leads_admission rfl rfl) fun hrow => ⟨hrow.1, fun hd => ?_⟩
    cases pidAlive with
    | false => exact hrow.2 rfl
    | true =>
      obtain ⟨c₀, hc₀, -⟩ := hrow.1
      exact observedDead_of_identify hid hc₀ hd
  | commitAttempt attempt observed pidAlive identity res db hpc hroom h => exact keeps_attempt hi hl ha hpc hroom h
  | cleanupFails g hpc => exact hend _ hpc rfl
  | recover g hpc =>
    rw [hi.db, Coordinator.read_toRow hi.wf]
    have hrec : c.record.activeExecution = c.execution := rfl
    cases hx : c.execution with
    | none =>
      simp only [Launcher.afterRecovery, hrec, hx]
      exact hunless _ _ hpc rfl ⟨fun _ => rfl, id, fun _ => id⟩ fun _ => trivial
    | some e =>
      simp only [Launcher.afterRecovery, hrec, hx]
      exact hlocal _ _ hpc ⟨fun _ => rfl, id, fun _ => id⟩ fun _ => hi.executionKnown e hx
  | priorTerminated g e hpc hgone =>
    exact hlocal _ _ hpc ⟨id, id, fun _ => id⟩ fun hlead => deadGroup_of_gone hlead hgone
  | priorThrows g e hpc => exact hend _ hpc rfl
  | clearPrior g e res db hpc h =>
    have hdead : s.DeadGroup e.token := by have := hok.pc; rwa [hpc] at this
    have hnext : ∀ res, l.afterClearPrior g res = l.goto (l.nextPrior g res) := by
      rintro (e | _ | _) <;> rfl
    rw [hnext]
    refine keeps_clear (l.nextPrior g) hi hl ha h hdead (fun res => ?_) (fun res c => ?_)
    · rw [hpc]
      unfold Launcher.nextPrior
      split
      · split
        · exact Pc.leads_ending rfl
        · exact ⟨fun _ => rfl, id, fun _ => id⟩
      · exact Pc.leads_ending rfl
    · unfold Launcher.nextPrior
      split
      · split <;> trivial
      · trivial
  | prepared g hpc => exact hunless _ _ hpc rfl ⟨id, id, fun _ => id⟩ fun _ => trivial
  | prepareFails g now res db hpc hab hnow h =>
    exact keeps_finish hi hl ha (by rw [hpc]; rfl) (fun _ => ⟨rfl, rfl⟩) (fun _ _ => trivial) hnow h
  | passStart g hpc =>
    exact ⟨c, .keep rfl, inv_goto hi hl ha (by rw [hpc]; exact ⟨id, id, fun _ => id⟩) trivial⟩
  | passThrows g hpc => exact hend _ hpc rfl
  | spawn g token k hpc hnew hsent hacc =>
    have hi' : Inv (s.putController token k) c :=
      inv_putController hi (fun k' hk' => by rw [hnew] at hk'; cases hk')
        (fun hr => by rw [hr.1] at hsent; cases hsent) (fun h => by rw [hacc] at h; cases h)
    exact ⟨c, .keep rfl, inv_goto hi' hl ha (by rw [hpc]; exact ⟨id, id, fun _ => id⟩) trivial⟩
  | handshakeFails g token hpc => exact hend _ hpc rfl
  | ready g token k hpc hk =>
    exact hlocal _ _ hpc ⟨id, id, fun _ => id⟩ fun _ => ⟨rfl, k, hk, rfl, rfl⟩
  | abortPrepared g p hpc hab => exact hlocal _ _ hpc ⟨id, id, fun _ => id⟩ id
  | register g p res db hpc hab h => exact keeps_register hi hl ha hpc h
  | abortRegistered g p hpc hab => exact hlocal _ _ hpc ⟨id, id, fun _ => id⟩ id
  | abortTerminated g p registered hpc hgone =>
    cases registered with
    | true => exact hlocal _ _ hpc ⟨id, id, fun _ => id⟩ fun hp => ⟨hp, deadGroup_of_gone hp.2 hgone⟩
    | false => exact hlocal _ _ hpc ⟨id, id, fun _ => id⟩ fun _ => trivial
  | abortThrows g p registered hpc => exact hlocal _ _ hpc ⟨id, id, fun _ => id⟩ id
  | authorize g p res db hpc hab h => exact keeps_authorize hi hl ha hpc h
  | sendStart g p k hpc hk =>
    obtain ⟨hp, hi', hev⟩ := inv_startSent hi hl ha hpc hk true fun _ => rfl
    exact ⟨c, .keep rfl, inv_goto hi' hl ha (by rw [hpc]; exact ⟨id, id, fun _ => id⟩) (hev.known hp)⟩
  | sendStartFails g p k left hpc hk =>
    obtain ⟨hp, hi', hev⟩ := inv_startSent hi hl ha hpc hk (k.startSent || left) fun h => by rw [h]; rfl
    exact ⟨c, .keep rfl, inv_goto hi' hl ha (by rw [hpc]; exact ⟨id, id, fun _ => id⟩) (hev.known hp)⟩
  | awaitReturns g p pass hpc hgone =>
    exact hlocal _ _ hpc ⟨id, id, fun _ => id⟩ fun hp => ⟨hp, deadGroup_of_gone hp.2 hgone⟩
  | awaitThrows g p hpc => exact hlocal _ _ hpc ⟨id, id, fun _ => id⟩ id
  | clear g p after res db hpc h =>
    have hp : p.Known s ∧ s.DeadGroup p.executionToken := by have := hok.pc; rwa [hpc] at this
    have hnext : ∀ res, l.afterClear g p after res = l.goto (after.next g p res) := by
      rintro (e | _ | _) <;> cases after <;> rfl
    rw [hnext]
    refine keeps_clear (after.next g p) hi hl ha h hp.2 (fun res => ?_) (fun res c => ?_)
    · rw [hpc]
      rcases res with e | _ | _ <;> cases after <;> exact ⟨fun _ => rfl, id, by simp [AfterClear.next, Pc.generation]⟩
    · rcases res with e | _ | _ <;> cases after <;> first | trivial | exact hp.1
  | cleaned g p registered hpc hgone =>
    cases registered with
    | true => exact hlocal _ _ hpc ⟨id, id, fun _ => id⟩ fun hp => ⟨hp, deadGroup_of_gone hp.2 hgone⟩
    | false => exact hend _ hpc rfl
  | cleanThrows g p registered hpc => exact hend _ hpc rfl
  | passAborted g pass hpc hab => exact hend _ hpc rfl
  | finish g now pass res db hpc hab hnow h =>
    exact keeps_finish hi hl ha (by rw [hpc]; rfl) (fun _ => ⟨rfl, rfl⟩) (fun _ _ => trivial) hnow h
  | release res db hpc h =>
    refine keeps_release l.afterRelease hi hl ha h ?_ ?_ ?_ ?_
    · rintro (e | _ | _) <;> rfl
    · rintro (e | _ | _) _ <;> rfl
    · exact fun _ _ => .ended l
    · rintro (e | _ | _) hne _
      · exact hok.goto (Pc.leads_ended _) (fun o ho => ⟨o, ho, ⟨rfl, rfl, rfl⟩, rfl⟩) trivial
      · exact hok.goto (Pc.leads_ended _) (fun o ho => ⟨o, ho, ⟨rfl, rfl, rfl⟩, rfl⟩) trivial
      · exact absurd rfl hne
  | heartbeat observed now hh hnow => exact keeps_heartbeat hi hl ha hnow
  | cancel =>
    refine ⟨c, .keep rfl, ?_⟩
    rw [hi.put_eq]
    exact inv_moved hi hl ha (.keep (e := .other) rfl) rfl id (fun h => absurd h (Coordinator.ne_acquire rfl))
      fun _ => ⟨hok.owning, hok.past, hok.owns, hok.pc⟩
  | fatal res db hh h =>
    exact keeps_release (fun _ => { l with alive := false }) hi hl ha h (fun _ => rfl) (fun _ => id)
      (fun _ h => by cases h) (fun _ _ h => by cases h)
  | kill =>
    refine ⟨c, .keep rfl, ?_⟩
    rw [hi.put_eq]
    exact inv_moved hi hl ha (.keep (e := .other) rfl) rfl id (fun h => absurd h (Coordinator.ne_acquire rfl))
      fun h => by cases h

theorem inv_controllerStep (hi : Inv s c) {t : String} {k : Controller} (hk : s.controllers t = some k) {s' : Sys}
    (h : ControllerStep s t k s') : Inv s' c := by
  have hacc := hi.accepted t k hk
  have hput : ∀ k' : Controller, k'.pid = k.pid → k'.identity = k.identity → k'.startSent = k.startSent →
      (k.groupAlive = false → k'.groupAlive = false) → (k'.accepted = true → k.startSent = true) →
      Inv (s.putController t k') c := fun k' hp hid hsent halive hacc' => by
    refine inv_putController hi (fun k₁ hk₁ => ?_) (fun hr => ?_) fun h => hsent ▸ hacc' h
    · rw [hk] at hk₁
      cases hk₁
      exact ⟨hp, hid, halive⟩
    · have hrun : k.Running := ⟨hsent ▸ hr.1, by
        cases hg : k.groupAlive with
        | true => rfl
        | false => have := hr.2; rw [halive hg] at this; cases this⟩
      obtain ⟨e, he, ht, hg, hi', hst⟩ := hi.running t k hk hrun
      exact ⟨e, he, ht, hg.trans hp.symm, hi'.trans hid.symm, hst⟩
  cases h with
  | acceptStart hsent => exact hput _ rfl rfl rfl id fun _ => hsent
  | leaderDies => exact hput _ rfl rfl rfl id hacc
  | groupDies => exact hput _ rfl rfl rfl (fun _ => rfl) hacc

/-- Whoever steps, the coordinator changes as a launcher's step says, or not at all. -/
theorem step_cases (hi : Inv s c) {e : Event} {s' : Sys} (h : Step s e s') :
    (e = .other ∧ Inv s' c) ∨
      ∃ l, s.launchers l.options.token = some l ∧ l.alive = true ∧ LauncherStep s l e s' ∧
        ∃ c', Change s l c e c' ∧ Inv s' c' := by
  cases h with
  | enter l hnew hfresh hpc hh => exact .inl ⟨rfl, inv_enter hi hnew hfresh hpc hh⟩
  | launcher l hl ha h =>
    have hl' : s.launchers l.options.token = some l := by rw [hi.keyed _ _ hl]; exact hl
    exact .inr ⟨l, hl', ha, h, launcherStep_keeps hi hl' ha h⟩
  | controller k hk h => exact .inl ⟨rfl, inv_controllerStep hi hk h⟩

end Steps

/-- The invariant of every run. -/
theorem inv_run {tr : List Event} {s : Sys} (h : Run launcherMachine tr s) : ∃ c, Inv s c := by
  refine h.invariant (I := fun s => ∃ c, Inv s c) (fun s hs => ⟨_, hs ▸ inv_init⟩) fun s e s' ⟨c, hi⟩ hstep => ?_
  rcases step_cases hi hstep with ⟨-, hi'⟩ | ⟨l, -, -, -, c', -, hi'⟩
  · exact ⟨c, hi'⟩
  · exact ⟨c', hi'⟩

end GitCommitsPush.Reconciliation
