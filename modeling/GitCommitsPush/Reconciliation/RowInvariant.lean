/-
  GitCommitsPush.Reconciliation.RowInvariant — the coordinator row over every sequence
  of calls.

  A `Call` is one of the seven operations, made by any process at any time with any
  arguments: a stale owner's token, pid or generation is an argument like any other. A
  registration comes in two forms: the whole admission loop on an unchanging table
  (`register`), and one attempt whose observation is as old, and whose liveness answer
  is as wrong, as one likes (`attempt`). A heartbeat reads any earlier table.

  `Admissible` is what the callers promise: a registering launcher's token is not that
  of a launcher that owned the row before it (each launcher draws its own and registers
  once), clock values are safe non-negative integers, and the request counter is below
  `Number.MAX_SAFE_INTEGER`.

  `committed_row_accepted`: after every such sequence the reader accepts the row, and
  the row satisfies `RowInvariant`.
-/

import GitCommitsPush.Lib.Runs
import GitCommitsPush.Reconciliation.Coordinator

namespace GitCommitsPush.Reconciliation

open GitCommitsPush.Lib.JsText
open GitCommitsPush.Lib.Runs

/-! ## Calls -/

inductive Call where
  | register (options : RegisterReconciliationOptions) (liveness : Fin admissionAttempts → Liveness)
  | attempt (options : RegisterReconciliationOptions) (observed : ReconcilerStateRecord) (observedOwnerIsAlive : Bool)
  | registerExecution (options : RegisterActiveExecutionOptions)
  | authorize (options : FenceActiveExecutionOptions)
  | clear (options : FenceActiveExecutionOptions)
  | finish (options : FinishReconciliationPassOptions)
  | heartbeat (observed : Db) (options : HeartbeatOptions)
  | release (options : ReleaseOwnershipOptions)

/-- What a registration answered, on table `db`. -/
def Call.registration (db : Db) : Call → Option (Except ReconcilerError RegisterReconciliationResult × Db)
  | .register options liveness =>
    some (registerReconciliationRequest db options fun i => ⟨db, liveness i, db⟩)
  | .attempt options observed alive => some (registrationAttempt options observed alive db)
  | _ => none

/-- The table the call leaves. -/
def Call.commit (db : Db) : Call → Db
  | .register options liveness => (registerReconciliationRequest db options fun i => ⟨db, liveness i, db⟩).2
  | .attempt options observed alive => (registrationAttempt options observed alive db).2
  | .registerExecution options => (registerActiveExecution db options).2
  | .authorize options => (authorizeActiveExecutionStart db options).2
  | .clear options => (clearActiveExecution db options).2
  | .finish options => (finishReconciliationPass db options).2
  | .heartbeat observed options => (heartbeatReconciler observed db options).2
  | .release options => (releaseReconciliationOwnership db options).2

/-- The token of the launcher this call made owner. -/
def Call.newOwner (db : Db) (call : Call) : List String :=
  match call, call.registration db with
  | .register options _, some (.ok (.owner ..), _) => [options.token]
  | .attempt options _ _, some (.ok (.owner ..), _) => [options.token]
  | _, _ => []

/-- A registration of a launcher that has not owned the row, with room in the counter. -/
def FreshRegistration (owners : List String) (db : Db) (options : RegisterReconciliationOptions) : Prop :=
  options.token ∉ owners ∧ ∀ row ∈ db, row.requestedGeneration < maxSafeInteger

def Call.Admissible (owners : List String) (db : Db) : Call → Prop
  | .register options _ => FreshRegistration owners db options
  | .attempt options _ _ => FreshRegistration owners db options ∧ assertRegistrationOptions options = .ok ()
  | .finish options => isSafeNonNegativeInteger (some options.nowEpochMs) = true
  | .heartbeat _ options => isSafeNonNegativeInteger (some options.nowEpochMs) = true
  | _ => True

/-- The table, and the tokens of every launcher that has owned it. -/
structure Shared where
  owners : List String
  db : Db
  deriving DecidableEq

def callMachine : Machine Shared Call where
  init s := s = ⟨[], initialDb⟩
  step s call t := call.Admissible s.owners s.db ∧ t = ⟨call.newOwner s.db ++ s.owners, call.commit s.db⟩

/-! ## The admission loop -/

/-- A registration that answers made exactly one attempt's transaction. -/
theorem admissionLoop_ok {options : RegisterReconciliationOptions} {r : RegisterReconciliationResult} {db' : Db} :
    ∀ (views : List AttemptView) (db : Db), admissionLoop options views db = (.ok r, db') →
      ∃ view ∈ views, ∃ observed, readReconcilerState view.observed = .ok observed ∧
        registrationAttempt options observed (ownerIsAlive view.liveness observed) view.current = (.ok r, db') := by
  intro views
  induction views with
  | nil => intro db h; cases h
  | cons view views ih =>
    intro db h
    simp only [admissionLoop] at h
    cases ho : readReconcilerState view.observed with
    | error e => rw [ho] at h; cases h
    | ok observed =>
      simp only [ho] at h
      split at h
      · obtain ⟨v, hv, rest⟩ := ih _ h
        exact ⟨v, List.mem_cons_of_mem _ hv, rest⟩
      · exact ⟨view, List.mem_cons_self, observed, ho, h⟩

/-- One that throws leaves the table of its last attempt, here the table it was called on. -/
theorem admissionLoop_error {options : RegisterReconciliationOptions} {db : Db} {e : ReconcilerError} :
    ∀ views : List AttemptView, (∀ view ∈ views, view.observed = db ∧ view.current = db) →
      (admissionLoop options views db).1 = .error e → (admissionLoop options views db).2 = db := by
  intro views
  induction views with
  | nil => intro _ _; rfl
  | cons view views ih =>
    intro hviews h
    obtain ⟨hobs, hcur⟩ := hviews view List.mem_cons_self
    simp only [admissionLoop] at h ⊢
    cases ho : readReconcilerState view.observed with
    | error e => exact hobs
    | ok observed =>
      simp only [ho] at h ⊢
      cases hout : registrationAttempt options observed (ownerIsAlive view.liveness observed) view.current with
      | mk res db' =>
        simp only [hout] at h ⊢
        cases res with
        | ok r => simp at h
        | error e' =>
          have hkept := attempt_error (e := e') (congrArg Prod.fst hout)
          rw [hout] at hkept
          simp only [hcur] at hkept
          subst hkept
          cases e' with
          | ownerChanged => exact ih (fun v hv => hviews v (List.mem_cons_of_mem _ hv)) h
          | _ => rfl

/-! ## The invariant -/

/-- What the row says, column by column. -/
structure RowInvariant (row : RawStateRow) : Prop where
  completedLe : row.completedGeneration ≤ row.requestedGeneration
  running : ∀ g, row.runningGeneration = some g → row.completedGeneration < g ∧ g ≤ row.requestedGeneration
  ownerTogether : ∀ present ∈ ownerFieldsPresent row, present = row.runningGeneration.isSome
  heartbeat : row.heartbeatAtEpochMs.isSome = row.runningGeneration.isSome
  session : row.runningGeneration = none → row.ownerSessionId = none
  executionTogether : executionPresentCount row = 0 ∨ executionPresentCount row = 8
  executionBounds : ∀ g, row.executionGeneration = some g →
    ∃ r, row.runningGeneration = some r ∧ row.completedGeneration < g ∧ g ≤ r
  sameOwner : row.executionToken.isSome = true →
    (row.executionOwnerToken = row.ownerToken ↔ row.executionGeneration = row.runningGeneration)

theorem Coordinator.WF.rowInvariant {c : Coordinator} (hc : c.WF) : RowInvariant c.toRow where
  completedLe := hc.completedLe
  running g hg := by
    obtain ⟨o, ho, rfl⟩ := Option.map_eq_some_iff.mp hg
    exact (hc.ownerOk o ho).2
  ownerTogether := by
    intro present h
    cases ho : c.owner <;> simpa [ownerFieldsPresent, toRow, ho] using h
  heartbeat := by simp [toRow]
  session h := by
    have : c.owner = none := by simpa [toRow] using h
    simp [toRow, this]
  executionTogether := by
    cases he : c.execution <;> simp [executionPresentCount, toRow, he]
  executionBounds g hg := by
    obtain ⟨e, he, rfl⟩ := Option.map_eq_some_iff.mp hg
    obtain ⟨-, h1, o, ho, h2, -⟩ := hc.executionOk e he
    exact ⟨o.running, by simp [toRow, ho], h1, h2⟩
  sameOwner h := by
    obtain ⟨e, he⟩ : ∃ e, c.execution = some e := by simpa [toRow, Option.isSome_iff_exists] using h
    obtain ⟨-, -, o, ho, -, h2⟩ := hc.executionOk e he
    simpa [toRow, he, ho] using h2

/-- The table holds the row of a well-formed coordinator whose owner, and whose
    execution's owner, are launchers that became owner in this run. -/
def Shared.Good (s : Shared) : Prop :=
  ∃ c : Coordinator, c.WF ∧ s.db = [c.toRow] ∧ (∀ o, c.owner = some o → o.token ∈ s.owners) ∧
    ∀ e, c.execution = some e → e.ownerToken ∈ s.owners

theorem good_of_attempt {s : Shared} (hs : s.Good) {options : RegisterReconciliationOptions}
    {observed : ReconcilerStateRecord} {alive : Bool} {r : RegisterReconciliationResult} {db : Db}
    (hfresh : FreshRegistration s.owners s.db options) (hopts : assertRegistrationOptions options = .ok ())
    (h : registrationAttempt options observed alive s.db = (.ok r, db)) :
    Shared.Good ⟨(match r with | .owner .. => [options.token] | _ => []) ++ s.owners, db⟩ := by
  obtain ⟨c, hc, hdb, hown, hex⟩ := hs
  obtain ⟨htok, hmax⟩ := hfresh
  rw [hdb] at h hmax
  have hlt : c.requested < maxSafeInteger := hmax c.toRow (by simp)
  obtain ⟨-, ⟨-, rfl, rfl⟩ | ⟨-, rfl, rfl⟩⟩ := attempt_ok hc h
  · exact ⟨c.coalesce, Coordinator.coalesce_wf hc hlt, rfl, hown, hex⟩
  · refine ⟨c.acquire options, Coordinator.acquire_wf hc hlt hopts (fun e he heq => htok (heq ▸ hex e he)), rfl, ?_, ?_⟩
    · intro o ho; cases ho; simp
    · intro e he; exact List.mem_append_right _ (hex e he)

/-- A call that changes neither the table nor the owners. -/
theorem Shared.Good.keep {s : Shared} (hs : s.Good) {db : Db} (h : db = s.db) : Shared.Good ⟨s.owners, db⟩ := by
  subst h; exact hs

/-- A call that throws changes nothing, so only its answers matter. -/
theorem Shared.Good.outcome {s : Shared} (hs : s.Good) {α : Type} (out : Except ReconcilerError α × Db)
    (herr : ∀ e, out.1 = .error e → out.2 = s.db) (hok : ∀ v, out = (.ok v, out.2) → Shared.Good ⟨s.owners, out.2⟩) :
    Shared.Good ⟨s.owners, out.2⟩ := by
  obtain ⟨res, db⟩ := out
  cases res with
  | error e => exact hs.keep (herr e rfl)
  | ok v => exact hok v rfl

/-- A call other than a registration, as a move of the coordinator. -/
theorem Shared.Good.move {s : Shared} {c c' : Coordinator} {db : Db} (hc : c'.WF) (hdb : db = [c'.toRow])
    (hown : ∀ o, c.owner = some o → o.token ∈ s.owners) (hex : ∀ e, c.execution = some e → e.ownerToken ∈ s.owners)
    (ho : ∀ o, c'.owner = some o → ∃ o', c.owner = some o' ∧ o.token = o'.token)
    (he : ∀ e, c'.execution = some e → (∃ e', c.execution = some e' ∧ e.ownerToken = e'.ownerToken) ∨
      ∃ o, c.owner = some o ∧ e.ownerToken = o.token) : Shared.Good ⟨s.owners, db⟩ := by
  refine ⟨c', hc, hdb, fun o h => ?_, fun e h => ?_⟩
  · obtain ⟨o', ho', heq⟩ := ho o h
    rw [heq]; exact hown o' ho'
  · rcases he e h with ⟨e', he', heq⟩ | ⟨o, ho', heq⟩
    · rw [heq]; exact hex e' he'
    · rw [heq]; exact hown o ho'

/-- The register call's own table is every view's, so its answer is one attempt's. -/
theorem register_outcome {options : RegisterReconciliationOptions} {liveness : Fin admissionAttempts → Liveness}
    {db db' : Db} {res : Except ReconcilerError RegisterReconciliationResult}
    (h : registerReconciliationRequest db options (fun i => ⟨db, liveness i, db⟩) = (res, db')) :
    (∀ e, res = .error e → db' = db) ∧ ∀ r, res = .ok r → assertRegistrationOptions options = .ok () ∧
      ∃ observed alive, registrationAttempt options observed alive db = (.ok r, db') := by
  unfold registerReconciliationRequest at h
  split at h
  · cases h
    exact ⟨fun _ _ => rfl, fun _ hr => by cases hr⟩
  · rename_i hopts
    have hviews : ∀ v ∈ List.ofFn (fun i => AttemptView.mk db (liveness i) db), v.observed = db ∧ v.current = db :=
      fun v hv => by obtain ⟨i, rfl⟩ := List.mem_ofFn.mp hv; exact ⟨rfl, rfl⟩
    refine ⟨fun e he => ?_, fun r hr => ⟨hopts, ?_⟩⟩
    · have := admissionLoop_error (e := e) _ hviews (by rw [h]; exact he)
      rwa [h] at this
    · subst hr
      obtain ⟨v, hv, observed, -, hatt⟩ := admissionLoop_ok _ _ h
      rw [(hviews v hv).2] at hatt
      exact ⟨observed, _, hatt⟩

theorem good_registration {s : Shared} (hs : s.Good) {options : RegisterReconciliationOptions}
    (hfresh : FreshRegistration s.owners s.db options) {res : Except ReconcilerError RegisterReconciliationResult} {db : Db}
    (herr : ∀ e, res = .error e → db = s.db)
    (hok : ∀ r, res = .ok r → assertRegistrationOptions options = .ok () ∧
      ∃ observed alive, registrationAttempt options observed alive s.db = (.ok r, db)) :
    Shared.Good ⟨(match res with | .ok (.owner ..) => [options.token] | _ => []) ++ s.owners, db⟩ := by
  cases res with
  | error e => exact hs.keep (herr e rfl)
  | ok r =>
    obtain ⟨hopts, observed, alive, hatt⟩ := hok r rfl
    have hgood := good_of_attempt hs hfresh hopts hatt
    cases r <;> exact hgood

theorem good_step {s t : Shared} {call : Call} (hs : s.Good) (h : callMachine.step s call t) : t.Good := by
  obtain ⟨hadm, rfl⟩ := h
  obtain ⟨c, hc, hdb, hown, hex⟩ := id hs
  cases call with
  | register options liveness =>
    cases hres : registerReconciliationRequest s.db options (fun i => ⟨s.db, liveness i, s.db⟩) with
    | mk res db =>
      obtain ⟨herr, hok⟩ := register_outcome hres
      have hgood := good_registration hs hadm herr hok
      simp only [Call.newOwner, Call.registration, Call.commit, hres]
      rcases res with e | r
      · exact hgood
      · cases r <;> exact hgood
  | attempt options observed alive =>
    cases hres : registrationAttempt options observed alive s.db with
    | mk res db =>
      have herr : ∀ e, res = .error e → db = s.db := fun e he => by
        have := attempt_error (e := e) (by rw [hres]; exact he)
        rwa [hres] at this
      have hgood := good_registration hs hadm.1 herr (fun r hr => ⟨hadm.2, observed, alive, hr ▸ hres⟩)
      simp only [Call.newOwner, Call.registration, Call.commit, hres]
      rcases res with e | r
      · exact hgood
      · cases r <;> exact hgood
  | registerExecution options =>
    refine hs.outcome (registerActiveExecution s.db options) (fun e he => registerExecution_error he) (fun v hv => ?_)
    rw [hdb] at hv
    obtain ⟨o, ⟨ho, ht, -⟩, -, hrun, hopts, hdb'⟩ := registerExecution_ok hc hv
    rw [hdb]
    refine .move (Coordinator.registerExecution_wf hc ho ht hrun hopts) hdb' hown hex (fun o h => ⟨o, h, rfl⟩) ?_
    intro e he; cases he; exact .inr ⟨o, ho, ht.symm⟩
  | authorize options =>
    refine hs.outcome (authorizeActiveExecutionStart s.db options) (fun e he => authorize_error he) (fun v hv => ?_)
    rw [hdb] at hv ⊢
    obtain ⟨-, ⟨e, he, -, -, -, -, hdb'⟩ | ⟨-, hdb'⟩⟩ := authorize_ok hc hv
    · refine .move (Coordinator.authorize_wf hc he) hdb' hown hex (fun o h => ⟨o, h, rfl⟩) ?_
      intro e' he'; cases he'; exact .inl ⟨e, he, rfl⟩
    · exact hs.keep (hdb'.trans hdb.symm)
  | clear options =>
    refine hs.outcome (clearActiveExecution s.db options) (fun e he => clearExecution_error he) (fun v hv => ?_)
    rw [hdb] at hv ⊢
    obtain ⟨-, ⟨e, -, -, -, hdb'⟩ | ⟨-, hdb'⟩⟩ := clearExecution_ok hc hv
    · exact .move (Coordinator.clearExecution_wf hc) hdb' hown hex (fun o h => ⟨o, h, rfl⟩) (fun e' he' => by cases he')
    · exact hs.keep (hdb'.trans hdb.symm)
  | finish options =>
    refine hs.outcome (finishReconciliationPass s.db options) (fun e he => finish_error he) (fun v hv => ?_)
    rw [hdb] at hv ⊢
    obtain ⟨o, ⟨ho, -, -⟩, hnone, hrun, ⟨hlt, -, hdb'⟩ | ⟨-, -, hdb'⟩⟩ := finish_ok hc hv
    · refine .move (Coordinator.continuePass_wf hc ho hnone hrun hlt hadm) hdb' hown hex ?_ (fun e he => .inl ⟨e, he, rfl⟩)
      intro o' ho'; cases ho'; exact ⟨o, ho, rfl⟩
    · exact .move (Coordinator.stop_wf hc ho hnone hrun) hdb' hown hex (fun o' ho' => by cases ho')
        (fun e he => .inl ⟨e, he, rfl⟩)
  | heartbeat observed options =>
    show Shared.Good ⟨s.owners, (heartbeatReconciler observed s.db options).2⟩
    unfold heartbeatReconciler
    split
    · exact hs.keep rfl
    · split
      · exact hs.keep rfl
      · split
        · exact hs.keep rfl
        · rename_i hup
          rw [hdb] at hup
          rcases heartbeat_ok hup with ⟨o, ⟨ho, -, -⟩, hdb'⟩ | hdb'
          · refine .move (Coordinator.beat_wf hc ho hadm) hdb' hown hex ?_ (fun e he => .inl ⟨e, he, rfl⟩)
            intro o' ho'; cases ho'; exact ⟨o, ho, rfl⟩
          · exact hs.keep (hdb'.trans hdb.symm)
  | release options =>
    refine hs.outcome (releaseReconciliationOwnership s.db options) (fun e he => release_error he) (fun v hv => ?_)
    rw [hdb] at hv ⊢
    rcases release_ok hc hv with ⟨o, ⟨ho, -, -⟩, hnone, -, hdb'⟩ | ⟨-, hdb'⟩
    · exact .move (Coordinator.release_wf hc hnone) hdb' hown hex (fun o' ho' => by cases ho')
        (fun e he => .inl ⟨e, he, rfl⟩)
    · exact hs.keep (hdb'.trans hdb.symm)

theorem good_run {calls : List Call} {s : Shared} (h : Run callMachine calls s) : s.Good :=
  Run.invariant (I := Shared.Good)
    (fun s hs => by
      cases hs
      refine ⟨.initial, initial_wf, rfl, ?_, ?_⟩ <;> intro _ h <;> cases h)
    (fun _ _ _ hs hstep => good_step hs hstep) h

/-- After any sequence of calls the reader accepts the row, and every clause of the row
    invariant holds of its columns. -/
theorem committed_row_accepted {calls : List Call} {s : Shared} (h : Run callMachine calls s) :
    ∃ row state, s.db = [row] ∧ readReconcilerState s.db = .ok state ∧ RowInvariant row := by
  obtain ⟨c, hc, hdb, -, -⟩ := good_run h
  exact ⟨c.toRow, c.record, hdb, by rw [hdb]; exact Coordinator.read_toRow hc, hc.rowInvariant⟩

/-- A launcher takes the row over from a dead owner whose execution is authorized, and
    the dead owner's stale finish is refused. -/
def takeoverCalls : List Call :=
  [.register ⟨"owner-a", 100, 1, "birth-100", "cli", "human", none, 5⟩ fun _ => ⟨fun _ => false, fun _ => none⟩,
    .registerExecution ⟨"owner-a", 100, 1, "execution-a", 200, "birth-200", 200, posixExecutionBoundaryKind⟩,
    .authorize ⟨"owner-a", 100, "execution-a"⟩,
    .register ⟨"owner-b", 300, 2, "birth-300", "cli", "agent", some "session", 9⟩ fun _ => ⟨fun _ => false, fun _ => none⟩,
    .finish ⟨"owner-a", 100, 1, true, 11⟩]

def takeoverRow : RawStateRow :=
  ({ Coordinator.initial.acquire ⟨"owner-b", 300, 2, "birth-300", "cli", "agent", some "session", 9⟩ with
      requested := 2
      execution := some ⟨"execution-a", 1, 200, "birth-200", 200, posixExecutionBoundaryKind, "owner-a", .startAuthorized⟩
      owner := some ⟨"owner-b", 300, 2, "birth-300", "cli", "agent", some "session", 9, 2⟩ } : Coordinator).toRow

theorem takeover_run : Run callMachine takeoverCalls ⟨["owner-b", "owner-a"], [takeoverRow]⟩ := by
  have h := Run.start (M := callMachine) (s := ⟨[], initialDb⟩) rfl
  have h := h.snoc (a := takeoverCalls[0]) ⟨⟨by decide, by decide⟩, rfl⟩
  have h := h.snoc (a := takeoverCalls[1]) ⟨trivial, rfl⟩
  have h := h.snoc (a := takeoverCalls[2]) ⟨trivial, rfl⟩
  have h := h.snoc (a := takeoverCalls[3]) ⟨⟨by decide, by decide⟩, rfl⟩
  have h := h.snoc (a := takeoverCalls[4]) ⟨rfl, rfl⟩
  exact cast (congrArg (Run callMachine takeoverCalls) (by decide)) h

theorem committed_row_accepted_takeover : ∃ row state, [takeoverRow] = [row] ∧
    readReconcilerState [takeoverRow] = .ok state ∧ RowInvariant row :=
  committed_row_accepted takeover_run

end GitCommitsPush.Reconciliation
