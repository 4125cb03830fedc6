/-
  GitCommitsPush.Reconciliation.Ownership — a registration takes the row only from a
  dead owner.

  A registration observes the row and the owner's liveness before its transaction, so
  the answer may be old when it commits. It is still right: `ownerMatchesObservation`
  makes the observed owner the present one, and a process seen dead stays dead
  (`Change.acquire` carries `OwnerDead` at the commit). Whoever holds an OWNER result
  therefore keeps the row until it finishes, releases or dies (`Change.foreign`).
-/

import GitCommitsPush.Reconciliation.SingleLive

namespace GitCommitsPush.Reconciliation

open GitCommitsPush.Lib.JsText
open GitCommitsPush.Lib.Runs

namespace RawStateRow

def ownerColumns (row : RawStateRow) :=
  (row.runningGeneration, row.ownerToken, row.ownerPid, row.ownerBootEpochMs, row.ownerProcessIdentity,
    row.ownerCallerName, row.ownerOriginAgent, row.ownerSessionId, row.heartbeatAtEpochMs)

def executionColumns (row : RawStateRow) :=
  (row.executionToken, row.executionGeneration, row.executionPid, row.executionProcessIdentity, row.executionGroupId,
    row.executionBoundaryKind, row.executionOwnerToken, row.executionState)

end RawStateRow

theorem Coordinator.ownerColumns_eq {c c' : Coordinator} (h : c'.owner = c.owner) :
    c'.toRow.ownerColumns = c.toRow.ownerColumns := by
  simp only [RawStateRow.ownerColumns, toRow, h]

theorem Coordinator.executionColumns_eq {c c' : Coordinator} (h : c'.execution = c.execution) :
    c'.toRow.executionColumns = c.toRow.executionColumns := by
  simp only [RawStateRow.executionColumns, toRow, h]

/-- The process the row records as owner is the live launcher `l`. -/
def Sys.OwnerAlive (s : Sys) (l : Launcher) : Prop :=
  s.launchers l.options.token = some l ∧ l.alive = true ∧ ∃ state, readReconcilerState s.db = .ok state ∧
    state.ownerPid = some l.options.pid ∧ state.ownerProcessIdentity = some l.options.processIdentity

/-- `l` holds an OWNER result it has not finished or released. -/
def Sys.Holder (s : Sys) (l : Launcher) : Prop :=
  s.launchers l.options.token = some l ∧ l.alive = true ∧ l.holds = true

section Registrations

variable {s s' : Sys} {c : Coordinator}

/-- A registration that commits coalesces, or takes the row from a dead owner. -/
theorem registered_cases (hi : Inv s c) {t : String} {r : RegisterReconciliationResult}
    (h : Step s (.registered t r) s') :
    s'.db = [c.coalesce.toRow] ∨
      (s.OwnerDead c ∧ ∃ l : Launcher, s'.db = [(c.acquire l.options).toRow]) := by
  rcases step_cases hi h with ⟨he, -⟩ | ⟨l, -, -, -, c', hch, hi'⟩
  · cases he
  · rw [hi'.db]
    cases hch with
    | keep hq => cases hq
    | coalesce => exact .inl rfl
    | acquire _ _ hd => exact .inr ⟨hd, l, rfl⟩

/-- An owner whose pid was seen alive with no readable identity is not replaced. -/
theorem unreadable_kept (hi : Inv s c) {l : Launcher} (hl : s.launchers l.options.token = some l) (ha : l.alive = true)
    {attempt : Nat} {observed : ReconcilerStateRecord} (hpc : l.pc = .deciding attempt observed true none)
    (hown : observed.ownerPid ≠ none) {t : String} {r : RegisterReconciliationResult}
    (h : LauncherStep s l (.registered t r) s') : s'.db = [c.coalesce.toRow] := by
  have hrow := (hi.launcher _ _ hl ha).pc
  rw [hpc] at hrow
  obtain ⟨⟨c₀, rfl, -⟩, -⟩ := hrow
  have halive : ownerIsAlive ⟨fun _ => true, fun _ => none⟩ c₀.record = true := by
    cases ho : c₀.owner with
    | none => simp [Coordinator.record, ho] at hown
    | some o => simp [ownerIsAlive, Coordinator.record, ho]
  generalize he : Event.registered t r = e at h
  cases h with
  | commitAttempt attempt' observed' pidAlive identity res db hpc' hroom hatt =>
    rw [hpc] at hpc'
    cases hpc'
    cases res with
    | error e => cases he
    | ok r' =>
      rw [halive, hi.db] at hatt
      obtain ⟨-, ⟨-, -, rfl⟩ | ⟨hdead, -⟩⟩ := attempt_ok hi.wf hatt
      · rfl
      · cases hdead
  | prepareFails g now res db | finish g now pass res db => cases res <;> cases he
  | _ => cases he

end Registrations

theorem exclusive_ownership {tr : List Event} {s : Sys} (h : Run launcherMachine tr s) :
    (∀ t r s' l, Step s (.registered t r) s' → s.OwnerAlive l →
        s'.db.map (·.ownerColumns) = s.db.map (·.ownerColumns)) ∧
      (∀ t r s' l attempt observed, s.launchers l.options.token = some l → l.alive = true →
        l.pc = .deciding attempt observed true none → observed.ownerPid ≠ none → LauncherStep s l (.registered t r) s' →
        s'.db.map (·.ownerColumns) = s.db.map (·.ownerColumns)) ∧
      (∀ l₁ l₂, s.Holder l₁ → s.Holder l₂ → l₁.options.token = l₂.options.token) ∧
      (∀ l, s.Holder l → ∃ state, readReconcilerState s.db = .ok state ∧ state.ownerToken = some l.options.token ∧
        state.ownerPid = some l.options.pid) ∧
      ∀ t r s', Step s (.registered t r) s' → s'.db.map (·.executionColumns) = s.db.map (·.executionColumns) := by
  obtain ⟨c, hi⟩ := inv_run h
  have hread : readReconcilerState s.db = .ok c.record := by rw [hi.db]; exact Coordinator.read_toRow hi.wf
  have hholder : ∀ l, s.Holder l → l.Owns c := fun l ⟨hl, ha, hh⟩ => (hi.launcher _ _ hl ha).owns hh
  have hcoalesce : ∀ s' : Sys, s'.db = [c.coalesce.toRow] → s'.db.map (·.ownerColumns) = s.db.map (·.ownerColumns) :=
    fun s' hdb => by rw [hdb, hi.db]; exact congrArg (· :: []) (Coordinator.ownerColumns_eq rfl)
  refine ⟨fun t r s' l hstep ⟨hl, ha, state, hstate, hp, hid⟩ => ?_,
    fun t r s' l attempt observed hl ha hpc hown hstep => hcoalesce s' (unreadable_kept hi hl ha hpc hown hstep),
    fun l₁ l₂ h₁ h₂ => ?_, fun l hl => ?_, fun t r s' hstep => ?_⟩
  · rw [hread] at hstate
    cases hstate
    rcases registered_cases hi hstep with hdb | ⟨hdead, -⟩
    · exact hcoalesce s' hdb
    · exact absurd ⟨hp, hid⟩ (hdead _ l hl ha)
  · obtain ⟨o₁, ho₁, ht₁, -⟩ := hholder l₁ h₁
    obtain ⟨o₂, ho₂, ht₂, -⟩ := hholder l₂ h₂
    rw [ho₁] at ho₂
    cases ho₂
    exact ht₁.symm.trans ht₂
  · obtain ⟨o, ho, ht, hp, -⟩ := hholder l hl
    exact ⟨c.record, hread, by simp [Coordinator.record, ho, ht], by simp [Coordinator.record, ho, hp]⟩
  · have hexec : ∀ c' : Coordinator, s'.db = [c'.toRow] → c'.execution = c.execution →
        s'.db.map (·.executionColumns) = s.db.map (·.executionColumns) := fun c' hdb hx => by
      rw [hdb, hi.db]
      exact congrArg (· :: []) (Coordinator.executionColumns_eq hx)
    rcases registered_cases hi hstep with hdb | ⟨-, l, hdb⟩
    · exact hexec _ hdb rfl
    · exact hexec _ hdb rfl

/-! ## A second launcher

It registers while the owner waits for its controller: first with the owner alive but its
identity unreadable, then with the owner dead. -/

def secondOptions : RegisterReconciliationOptions := ⟨"owner-b", 300, 2, "birth-300", "cli", "agent", none, 9⟩

def secondLauncher (pc : Pc) (holds : Bool) : Launcher := ⟨secondOptions, rfl, pc, holds, false, true⟩

def firstLauncher (alive : Bool) : Launcher := { sampleLauncher (.awaiting 1 samplePrepared) true with alive }

def secondSys (c : Coordinator) (alive : Bool) (pc : Pc) (holds : Bool) : Sys :=
  ((sampleSys c (.awaiting 1 samplePrepared) true (some (sampleController true true true))).put (firstLauncher alive)).put
    (secondLauncher pc holds)

section Second

variable {c : Coordinator} {alive : Bool} {pc : Pc} {holds : Bool} {tr : List Event}

theorem secondSys_put (c' : Coordinator) (pc' : Pc) (holds' : Bool) :
    { secondSys c alive pc holds with db := [c'.toRow] }.put (secondLauncher pc' holds') = secondSys c' alive pc' holds' := by
  simp only [secondSys, Sys.put, sampleSys, secondLauncher, Function.update_idem]

theorem secondSys_second : (secondSys c alive pc holds).launchers "owner-b" = some (secondLauncher pc holds) := by
  simp [secondSys, Sys.put, secondLauncher, secondOptions]

theorem secondSys_first : (secondSys c alive pc holds).launchers "owner-a" = some (firstLauncher alive) := by
  simp [secondSys, Sys.put, secondLauncher, secondOptions, firstLauncher, sampleLauncher, sampleOptions]

theorem secondSys_launchers {t : String} {l : Launcher} (h : (secondSys c alive pc holds).launchers t = some l) :
    l = secondLauncher pc holds ∨ l = firstLauncher alive := by
  by_cases hb : t = "owner-b"
  · subst hb
    exact .inl (Option.some.inj (h.symm.trans secondSys_second))
  · by_cases ha : t = "owner-a"
    · subst ha
      exact .inr (Option.some.inj (h.symm.trans secondSys_first))
    · have hnone : (secondSys c alive pc holds).launchers t = none := by
        simp [secondSys, Sys.put, sampleSys, secondLauncher, secondOptions, firstLauncher, sampleLauncher, sampleOptions, ha, hb]
      cases hnone.symm.trans h

theorem second_moves {e : Event} (c' : Coordinator) (pc' : Pc) (holds' : Bool)
    (hs : LauncherStep (secondSys c alive pc holds) (secondLauncher pc holds) e
      ({ secondSys c alive pc holds with db := [c'.toRow] }.put (secondLauncher pc' holds'))) :
    Step (secondSys c alive pc holds) e (secondSys c' alive pc' holds') := by
  rw [secondSys_put] at hs
  exact .launcher _ secondSys_second rfl hs

theorem second_step (h : Run launcherMachine tr (secondSys c alive pc holds)) {e : Event} (c' : Coordinator) (pc' : Pc)
    (holds' : Bool) (hs : LauncherStep (secondSys c alive pc holds) (secondLauncher pc holds) e
      ({ secondSys c alive pc holds with db := [c'.toRow] }.put (secondLauncher pc' holds'))) :
    Run launcherMachine (tr ++ [e]) (secondSys c' alive pc' holds') :=
  h.snoc (second_moves c' pc' holds' hs)

end Second

def secondFound : Coordinator := sampleRecorded .startAuthorized

theorem second_enters (alive : Bool) : ∃ tr, Run launcherMachine tr (secondSys secondFound alive (.admission 0) false) := by
  have hfirst : ∃ tr, Run launcherMachine tr ((sampleSys secondFound (.awaiting 1 samplePrepared) true
      (some (sampleController true true true))).put (firstLauncher alive)) := by
    cases alive with
    | true =>
      exact ⟨_, cast (congrArg (Run launcherMachine _) (sampleSys_put (c := secondFound) secondFound (.awaiting 1 samplePrepared) true).symm)
        sample_started⟩
    | false => exact ⟨_, sample_launcher_step sample_started .kill⟩
  obtain ⟨tr, hfirst⟩ := hfirst
  have henters : launcherMachine.step ((sampleSys secondFound (.awaiting 1 samplePrepared) true
      (some (sampleController true true true))).put (firstLauncher alive)) .other (secondSys secondFound alive (.admission 0) false) := by
    refine Step.enter (secondLauncher (.admission 0) false) ?_ ?_ rfl rfl rfl
    · simp [Sys.put, sampleSys, secondLauncher, secondOptions, firstLauncher, sampleLauncher, sampleOptions]
    · rintro t l hl ⟨hpid, -⟩
      have hsame : l = firstLauncher alive := by
        by_cases ha : t = "owner-a"
        · subst ha
          simpa [Sys.put, firstLauncher, sampleLauncher, sampleOptions] using hl.symm
        · simp [Sys.put, sampleSys, firstLauncher, sampleLauncher, sampleOptions, ha] at hl
      subst hsame
      exact absurd hpid (show ¬(100 : Int) = 300 by decide)
  exact ⟨tr ++ [.other], hfirst.snoc henters⟩

/-- The second launcher has observed the owner: it is alive with no identity to be read, or it is dead. -/
theorem second_decides (alive : Bool) :
    ∃ tr, Run launcherMachine tr (secondSys secondFound alive (.deciding 0 secondFound.record alive none) false) := by
  obtain ⟨tr, h0⟩ := second_enters alive
  have h1 := second_step h0 secondFound (.observing 0 secondFound.record) false
    (.read 0 secondFound.record rfl (show readReconcilerState [secondFound.toRow] = .ok secondFound.record by decide))
  have h2 := second_step h1 secondFound (.identifying 0 secondFound.record alive) false
    (.probe 0 secondFound.record alive rfl fun hdead pid identity hpid hlive => by
      subst hdead
      cases hpid
      rcases hlive with ⟨t, l, hl, hlives, hsame, -⟩ | ⟨t, k, hk, -, hsame, -⟩
      · rcases secondSys_launchers hl with rfl | rfl
        · exact absurd hsame (by decide)
        · cases hlives
      · have hcontroller : t = "execution-a" ∧ k = sampleController true true true := by
          by_cases ht : t = "execution-a"
          · subst ht
            exact ⟨rfl, (Option.some.inj hk).symm⟩
          · simp [secondSys, Sys.put, sampleSys, ht] at hk
        rw [hcontroller.2] at hsame
        exact absurd hsame (by decide))
  exact ⟨_, second_step h2 secondFound (.deciding 0 secondFound.record alive none) false
    (.identify 0 secondFound.record alive none rfl fun _ _ _ _ => .inl rfl)⟩

theorem second_coalesces : Step (secondSys secondFound true (.deciding 0 secondFound.record true none) false)
    (.registered "owner-b" (.coalesced 2 (some 100) (some "cli"))) (secondSys secondFound.coalesce true .ended false) :=
  second_moves secondFound.coalesce .ended false
    (.commitAttempt 0 secondFound.record true none (.ok (.coalesced 2 (some 100) (some "cli"))) [secondFound.coalesce.toRow] rfl
      (by decide) (by decide))

theorem second_takes_over : Step (secondSys secondFound false (.deciding 0 secondFound.record false none) false)
    (.registered "owner-b" (.owner 2 0 true (some 100) true)) (secondSys (secondFound.acquire secondOptions) false (.recovering 2) true) :=
  second_moves (secondFound.acquire secondOptions) (.recovering 2) true
    (.commitAttempt 0 secondFound.record false none (.ok (.owner 2 0 true (some 100) true)) [(secondFound.acquire secondOptions).toRow] rfl
      (by decide) (by decide))

/-- The second launcher coalesces into the live owner, seen alive with no identity, and replaces
    the dead one; the execution on record stays through both. -/
theorem exclusive_ownership_second :
    (∃ s s' : Sys, s.OwnerAlive (firstLauncher true) ∧ Step s (.registered "owner-b" (.coalesced 2 (some 100) (some "cli"))) s' ∧
      s'.db.map (·.ownerColumns) = s.db.map (·.ownerColumns) ∧ s'.db.map (·.executionColumns) = s.db.map (·.executionColumns)) ∧
    ∃ s s' : Sys, Step s (.registered "owner-b" (.owner 2 0 true (some 100) true)) s' ∧
      s'.db.map (·.executionColumns) = s.db.map (·.executionColumns) ∧ s'.Holder (secondLauncher (.recovering 2) true) ∧
      ∃ state, readReconcilerState s'.db = .ok state ∧ state.ownerToken = some "owner-b" ∧ state.ownerPid = some 300 := by
  constructor
  · obtain ⟨tr, hrun⟩ := second_decides true
    obtain ⟨hkept, -, -, -, hexecution⟩ := exclusive_ownership hrun
    have halive : (secondSys secondFound true (.deciding 0 secondFound.record true none) false).OwnerAlive (firstLauncher true) :=
      ⟨secondSys_first, rfl, secondFound.record,
        show readReconcilerState [secondFound.toRow] = .ok secondFound.record by decide, rfl, rfl⟩
    exact ⟨_, _, halive, second_coalesces, hkept _ _ _ _ second_coalesces halive, hexecution _ _ _ second_coalesces⟩
  · obtain ⟨tr, hrun⟩ := second_decides false
    obtain ⟨-, -, -, -, hexecution⟩ := exclusive_ownership hrun
    have hholder : (secondSys (secondFound.acquire secondOptions) false (.recovering 2) true).Holder (secondLauncher (.recovering 2) true) :=
      ⟨secondSys_second, rfl, rfl⟩
    obtain ⟨-, -, -, howner, -⟩ := exclusive_ownership (hrun.snoc second_takes_over)
    exact ⟨_, _, second_takes_over, hexecution _ _ _ second_takes_over, hholder, howner _ hholder⟩

end GitCommitsPush.Reconciliation
