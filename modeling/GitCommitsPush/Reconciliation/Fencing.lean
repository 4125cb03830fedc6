/-
  GitCommitsPush.Reconciliation.Fencing — what a call may change, and who may make it.

  `Move` is one committed change of the coordinator row with everything its call had to
  pass: the owner's token and pid, the running generation, the recorded execution.
  `commit_cases`: on the row of a well-formed coordinator a call makes one of these
  moves or leaves the table alone, however it is fenced (by a throw, a `false`, or the
  WHERE clause of a heartbeat whose read is of another table).

  `calls_fenced`: over every sequence of calls, a stale call changes no column, a call
  that throws changes no column, and a launcher that has lost the row never changes it
  again.
-/

import GitCommitsPush.Reconciliation.RowInvariant

namespace GitCommitsPush.Reconciliation

open GitCommitsPush.Lib.Runs

/-! ## What a call carries -/

/-- The owner token of the launcher that calls. -/
def Call.token : Call → String
  | .register options _ | .attempt options _ _ => options.token
  | .registerExecution options => options.ownerToken
  | .authorize options | .clear options => options.ownerToken
  | .finish options => options.token
  | .heartbeat _ options => options.token
  | .release options => options.token

def Call.pid : Call → Int
  | .register options _ | .attempt options _ _ => options.pid
  | .registerExecution options => options.ownerPid
  | .authorize options | .clear options => options.ownerPid
  | .finish options => options.pid
  | .heartbeat _ options => options.pid
  | .release options => options.pid

def Call.registration? : Call → Option RegisterReconciliationOptions
  | .register options _ | .attempt options _ _ => some options
  | _ => none

/-- The generation a finish or an execution registration is for. -/
def Call.generation? : Call → Option Int
  | .registerExecution options => some options.generation
  | .finish options => some options.generation
  | _ => none

/-- The execution an authorization or a clear is for. -/
def Call.executionToken? : Call → Option String
  | .authorize options | .clear options => some options.executionToken
  | _ => none

/-- The call is not the current owner's, not for the running generation, or not for the
    recorded execution. -/
def Call.Stale (row : RawStateRow) (call : Call) : Prop :=
  row.ownerToken ≠ some call.token ∨ row.ownerPid ≠ some call.pid ∨
    (∃ g, call.generation? = some g ∧ row.runningGeneration ≠ some g) ∨
    ∃ t, call.executionToken? = some t ∧ row.executionToken ≠ some t

/-- What the caller is told, values aside. -/
def Call.answer (db : Db) : Call → Except ReconcilerError Unit
  | .register options liveness =>
    (registerReconciliationRequest db options fun i => ⟨db, liveness i, db⟩).1.map fun _ => ()
  | .attempt options observed alive => (registrationAttempt options observed alive db).1.map fun _ => ()
  | .registerExecution options => (registerActiveExecution db options).1.map fun _ => ()
  | .authorize options => (authorizeActiveExecutionStart db options).1.map fun _ => ()
  | .clear options => (clearActiveExecution db options).1.map fun _ => ()
  | .finish options => (finishReconciliationPass db options).1.map fun _ => ()
  | .heartbeat observed options => (heartbeatReconciler observed db options).1.map fun _ => ()
  | .release options => (releaseReconciliationOwnership db options).1.map fun _ => ()

/-! ## A call that throws changes nothing -/

theorem error_of_map {ε α β : Type} {x : Except ε α} {f : α → β} {e : ε} (h : x.map f = .error e) : x = .error e := by
  cases x with
  | error e' => exact congrArg _ (Except.error.inj h)
  | ok a => cases h

theorem heartbeat_error {observed db : Db} {options : HeartbeatOptions} {e : ReconcilerError}
    (h : (heartbeatReconciler observed db options).1 = .error e) : (heartbeatReconciler observed db options).2 = db := by
  unfold heartbeatReconciler at h ⊢
  cases hread : readReconcilerState observed with
  | error e' => rfl
  | ok state =>
    simp only [hread] at h ⊢
    by_cases howner : state.ownerToken ≠ some options.token ∨ state.ownerPid ≠ some options.pid
    · rw [if_pos howner]
    · rw [if_neg howner] at h ⊢
      cases hupdate : heartbeatUpdate db options with
      | error e' => rfl
      | ok changed => simp [hupdate] at h

theorem commit_of_error {db : Db} {call : Call} {e : ReconcilerError} (h : call.answer db = .error e) :
    call.commit db = db := by
  cases call with
  | register options liveness => exact (register_outcome (Prod.ext (error_of_map h) rfl)).1 e rfl
  | attempt options observed alive => exact attempt_error (error_of_map h)
  | registerExecution options => exact registerExecution_error (error_of_map h)
  | authorize options => exact authorize_error (error_of_map h)
  | clear options => exact clearExecution_error (error_of_map h)
  | finish options => exact finish_error (error_of_map h)
  | heartbeat observed options => exact heartbeat_error (error_of_map h)
  | release options => exact release_error (error_of_map h)

/-- A registration that gave up, other processes committing before each of its reads and
    transactions: the table is as they left it. -/
theorem admissionLoop_gaveUp {options : RegisterReconciliationOptions} {db' : Db} {e : ReconcilerError} :
    ∀ (views : List AttemptView) (db : Db), admissionLoop options views db = (.error e, db') →
      db' = db ∨ ∃ view ∈ views, db' = view.observed ∨ db' = view.current := by
  intro views
  induction views with
  | nil =>
    intro db h
    exact .inl (Prod.mk.inj h).2.symm
  | cons view views ih =>
    intro db h
    simp only [admissionLoop] at h
    cases ho : readReconcilerState view.observed with
    | error e' =>
      simp only [ho, Prod.mk.injEq] at h
      exact .inr ⟨view, List.mem_cons_self, .inl h.2.symm⟩
    | ok observed =>
      simp only [ho] at h
      cases hout : registrationAttempt options observed (ownerIsAlive view.liveness observed) view.current with
      | mk res db₁ =>
        have hkept : ∀ e', res = .error e' → db₁ = view.current := by
          intro e' he'
          have := attempt_error (e := e') ((congrArg Prod.fst hout).trans he')
          rwa [hout] at this
        simp only [hout] at h
        split at h
        · rename_i heq
          obtain ⟨hres, rfl⟩ := Prod.mk.inj heq
          rcases ih _ h with h | ⟨v, hv, h⟩
          · exact .inr ⟨view, List.mem_cons_self, .inr (h.trans (hkept _ hres))⟩
          · exact .inr ⟨v, List.mem_cons_of_mem _ hv, h⟩
        · obtain ⟨hres, rfl⟩ := Prod.mk.inj h
          exact .inr ⟨view, List.mem_cons_self, .inr (hkept _ hres)⟩

/-! ## A call that commits is one move -/

inductive Move (c : Coordinator) : Call → Coordinator → Prop
  | coalesce {call : Call} {options : RegisterReconciliationOptions} : call.registration? = some options →
      Move c call c.coalesce
  | acquire {call : Call} {options : RegisterReconciliationOptions} : call.registration? = some options →
      Move c call (c.acquire options)
  | registerExecution {o : Owner} {options : RegisterActiveExecutionOptions} :
      c.OwnedBy o options.ownerToken options.ownerPid → c.execution = none → o.running = options.generation →
      assertExecutionOptions options = .ok () → Move c (.registerExecution options) (c.registerExecution options)
  | authorize {o : Owner} {e : ActiveExecutionRecord} {options : FenceActiveExecutionOptions} :
      c.OwnedBy o options.ownerToken options.ownerPid → c.execution = some e → e.token = options.executionToken →
      e.ownerToken = options.ownerToken → e.state = .registered → Move c (.authorize options) (c.authorize e)
  | clear {o : Owner} {e : ActiveExecutionRecord} {options : FenceActiveExecutionOptions} :
      c.OwnedBy o options.ownerToken options.ownerPid → c.execution = some e → e.token = options.executionToken →
      Move c (.clear options) c.clearExecution
  | continuePass {o : Owner} {options : FinishReconciliationPassOptions} : c.OwnedBy o options.token options.pid →
      c.execution = none → o.running = options.generation → options.generation < c.requested →
      Move c (.finish options) (c.continuePass options o)
  | stop {o : Owner} {options : FinishReconciliationPassOptions} : c.OwnedBy o options.token options.pid →
      c.execution = none → o.running = options.generation → c.requested ≤ options.generation →
      Move c (.finish options) (c.stop options)
  | beat {o : Owner} {observed : Db} {options : HeartbeatOptions} : c.OwnedBy o options.token options.pid →
      Move c (.heartbeat observed options) (c.beat o options.nowEpochMs)
  | release {o : Owner} {options : ReleaseOwnershipOptions} : c.OwnedBy o options.token options.pid →
      c.execution = none → Move c (.release options) c.release

section Commits

variable {c : Coordinator}

/-- An operation that answers is a move or changes nothing; one that throws changes
    nothing. -/
theorem commit_outcome {α : Type} {call : Call} {o : Except ReconcilerError α × Db}
    (herr : ∀ e, o.1 = .error e → o.2 = [c.toRow])
    (hok : ∀ v, o = (.ok v, o.2) → o.2 = [c.toRow] ∨ ∃ c', Move c call c' ∧ o.2 = [c'.toRow]) :
    o.2 = [c.toRow] ∨ ∃ c', Move c call c' ∧ o.2 = [c'.toRow] := by
  obtain ⟨res, db⟩ := o
  cases res with
  | error e => exact .inl (herr e rfl)
  | ok v => exact hok v rfl

theorem attempt_move (hc : c.WF) {call : Call} {options : RegisterReconciliationOptions}
    (hcall : call.registration? = some options) {observed : ReconcilerStateRecord} {alive : Bool}
    {r : RegisterReconciliationResult} {db : Db}
    (h : registrationAttempt options observed alive [c.toRow] = (.ok r, db)) : ∃ c', Move c call c' ∧ db = [c'.toRow] := by
  obtain ⟨-, ⟨-, -, hdb⟩ | ⟨-, -, hdb⟩⟩ := attempt_ok hc h
  · exact ⟨_, .coalesce hcall, hdb⟩
  · exact ⟨_, .acquire hcall, hdb⟩

theorem commit_cases (hc : c.WF) (call : Call) :
    call.commit [c.toRow] = [c.toRow] ∨ ∃ c', Move c call c' ∧ call.commit [c.toRow] = [c'.toRow] := by
  cases call with
  | register options liveness =>
    refine commit_outcome (o := registerReconciliationRequest [c.toRow] options fun i => ⟨[c.toRow], liveness i, [c.toRow]⟩)
      (fun e he => (register_outcome (Prod.ext he rfl)).1 e rfl) fun r hr => .inr ?_
    obtain ⟨-, observed, alive, h⟩ := (register_outcome hr).2 r rfl
    exact attempt_move hc rfl h
  | attempt options observed alive =>
    exact commit_outcome (o := registrationAttempt options observed alive [c.toRow]) (fun e he => attempt_error he)
      fun r hr => .inr (attempt_move hc rfl hr)
  | registerExecution options =>
    refine commit_outcome (o := registerActiveExecution [c.toRow] options) (fun e he => registerExecution_error he)
      fun v hv => .inr ?_
    obtain ⟨o, ho, hnone, hrun, hvalid, hdb⟩ := registerExecution_ok hc hv
    exact ⟨_, .registerExecution ho hnone hrun hvalid, hdb⟩
  | authorize options =>
    refine commit_outcome (o := authorizeActiveExecutionStart [c.toRow] options) (fun e he => authorize_error he)
      fun v hv => ?_
    obtain ⟨⟨o, ho⟩, ⟨e, he, htoken, howner, hstate, -, hdb⟩ | ⟨-, hdb⟩⟩ := authorize_ok hc hv
    · exact .inr ⟨_, .authorize ho he htoken howner hstate, hdb⟩
    · exact .inl hdb
  | clear options =>
    refine commit_outcome (o := clearActiveExecution [c.toRow] options) (fun e he => clearExecution_error he)
      fun v hv => ?_
    obtain ⟨⟨o, ho⟩, ⟨e, he, htoken, -, hdb⟩ | ⟨-, hdb⟩⟩ := clearExecution_ok hc hv
    · exact .inr ⟨_, .clear ho he htoken, hdb⟩
    · exact .inl hdb
  | finish options =>
    refine commit_outcome (o := finishReconciliationPass [c.toRow] options) (fun e he => finish_error he)
      fun v hv => .inr ?_
    obtain ⟨o, ho, hnone, hrun, ⟨hlt, -, hdb⟩ | ⟨hge, -, hdb⟩⟩ := finish_ok hc hv
    · exact ⟨_, .continuePass ho hnone hrun hlt, hdb⟩
    · exact ⟨_, .stop ho hnone hrun hge, hdb⟩
  | heartbeat observed options =>
    show (heartbeatReconciler observed [c.toRow] options).2 = [c.toRow] ∨
      ∃ c', Move c (.heartbeat observed options) c' ∧ (heartbeatReconciler observed [c.toRow] options).2 = [c'.toRow]
    unfold heartbeatReconciler
    split
    · exact .inl rfl
    · split
      · exact .inl rfl
      · split
        · exact .inl rfl
        · rename_i hupdate
          rcases heartbeat_ok hupdate with ⟨o, ho, hdb⟩ | hdb
          · exact .inr ⟨_, .beat ho, hdb⟩
          · exact .inl hdb
  | release options =>
    refine commit_outcome (o := releaseReconciliationOwnership [c.toRow] options) (fun e he => release_error he)
      fun v hv => ?_
    rcases release_ok hc hv with ⟨o, ho, hnone, -, hdb⟩ | ⟨-, hdb⟩
    · exact .inr ⟨_, .release ho hnone, hdb⟩
    · exact .inl hdb

/-! ## Fencing -/

theorem Coordinator.OwnedBy.columns {o : Owner} {token : String} {pid : Int} (h : c.OwnedBy o token pid) :
    c.toRow.ownerToken = some token ∧ c.toRow.ownerPid = some pid ∧ c.toRow.runningGeneration = some o.running := by
  obtain ⟨ho, rfl, rfl⟩ := h
  simp [Coordinator.toRow, ho]

/-- A call other than a registration moves the row only when it is not stale. -/
theorem Move.not_stale {call : Call} {c' : Coordinator} (h : Move c call c') (hcall : call.registration? = none) :
    ¬ call.Stale c.toRow := by
  intro hstale
  have hregisters : ∀ options, call.registration? ≠ some options := by
    intro options h
    rw [hcall] at h
    cases h
  have hfence : ∀ {o : Owner}, c.OwnedBy o call.token call.pid →
      (∀ g, call.generation? = some g → o.running = g) →
      (∀ t, call.executionToken? = some t → c.toRow.executionToken = some t) → False := by
    intro o ho hgeneration hexecution
    obtain ⟨htoken, hpid, hrunning⟩ := ho.columns
    rcases hstale with h | h | ⟨g, hg, h⟩ | ⟨t, ht, h⟩
    · exact h htoken
    · exact h hpid
    · exact h (hrunning.trans (congrArg some (hgeneration g hg)))
    · exact h (hexecution t ht)
  have hrecorded : ∀ {e : ActiveExecutionRecord}, c.execution = some e → c.toRow.executionToken = some e.token := by
    intro e he
    simp [Coordinator.toRow, he]
  cases h with
  | coalesce h => exact hregisters _ h
  | acquire h => exact hregisters _ h
  | registerExecution ho _ hrun _ =>
    exact hfence ho (fun g hg => hrun.trans (Option.some.inj hg)) (fun t ht => by cases ht)
  | authorize ho he htoken _ _ =>
    exact hfence ho (fun g hg => by cases hg) fun t ht => by rw [hrecorded he, htoken]; exact ht
  | clear ho he htoken =>
    exact hfence ho (fun g hg => by cases hg) fun t ht => by rw [hrecorded he, htoken]; exact ht
  | continuePass ho _ hrun _ =>
    exact hfence ho (fun g hg => hrun.trans (Option.some.inj hg)) (fun t ht => by cases ht)
  | stop ho _ hrun _ =>
    exact hfence ho (fun g hg => hrun.trans (Option.some.inj hg)) (fun t ht => by cases ht)
  | beat ho => exact hfence ho (fun g hg => by cases hg) (fun t ht => by cases ht)
  | release ho _ => exact hfence ho (fun g hg => by cases hg) (fun t ht => by cases ht)

/-- Only a registration brings a token into the owner column. -/
theorem Move.owner {call : Call} {c' : Coordinator} (h : Move c call c') {o' : Owner} (ho' : c'.owner = some o') :
    (∃ o, c.owner = some o ∧ o.token = o'.token) ∨ ∃ options, call.registration? = some options ∧ options.token = o'.token := by
  cases h with
  | coalesce _ => exact .inl ⟨o', ho', rfl⟩
  | acquire h =>
    cases ho'
    exact .inr ⟨_, h, rfl⟩
  | registerExecution _ _ _ _ => exact .inl ⟨o', ho', rfl⟩
  | authorize _ _ _ _ _ => exact .inl ⟨o', ho', rfl⟩
  | clear _ _ _ => exact .inl ⟨o', ho', rfl⟩
  | continuePass ho _ _ _ =>
    cases ho'
    exact .inl ⟨_, ho.1, rfl⟩
  | stop _ _ _ _ => cases ho'
  | beat ho =>
    cases ho'
    exact .inl ⟨_, ho.1, rfl⟩
  | release _ _ => cases ho'

theorem Move.requested {call : Call} {c' : Coordinator} (h : Move c call c') (hcall : call.registration? = none) :
    c'.requested = c.requested := by
  cases h with
  | coalesce h =>
    rw [hcall] at h
    cases h
  | acquire h =>
    rw [hcall] at h
    cases h
  | _ => rfl

end Commits

/-! ## Over every run -/

theorem stale_unchanged {s : Shared} (hs : s.Good) {call : Call} (hcall : call.registration? = none)
    (hstale : ∀ row ∈ s.db, call.Stale row) : call.commit s.db = s.db := by
  obtain ⟨c, hc, hdb, -, -⟩ := hs
  rw [hdb] at hstale ⊢
  rcases commit_cases hc call with h | ⟨c', hmove, -⟩
  · exact h
  · exact absurd (hstale c.toRow List.mem_cons_self) (hmove.not_stale hcall)

/-- The launcher once owned the row and does not own it now. -/
structure Replaced (token : String) (s : Shared) : Prop where
  owned : token ∈ s.owners
  lost : ∀ row ∈ s.db, row.ownerToken ≠ some token

theorem Call.Admissible.fresh {call : Call} {owners : List String} {db : Db} (h : call.Admissible owners db)
    {options : RegisterReconciliationOptions} (hcall : call.registration? = some options) : options.token ∉ owners := by
  cases call with
  | register options' _ =>
    cases hcall
    exact h.1
  | attempt options' _ _ =>
    cases hcall
    exact h.1.1
  | _ => cases hcall

theorem Call.registration_token {call : Call} {options : RegisterReconciliationOptions}
    (h : call.registration? = some options) : call.token = options.token := by
  cases call with
  | register _ _ => cases h; rfl
  | attempt _ _ _ => cases h; rfl
  | _ => cases h

/-- No admissible call gives the row back: a registration's token never owned it. -/
theorem replaced_step {s t : Shared} (hs : s.Good) {token : String} (h : Replaced token s) {call : Call}
    (hstep : callMachine.step s call t) : Replaced token t := by
  obtain ⟨hadmissible, rfl⟩ := hstep
  refine ⟨List.mem_append_right _ h.owned, ?_⟩
  obtain ⟨c, hc, hdb, -, -⟩ := hs
  have hlost := h.lost
  rw [hdb] at hlost
  show ∀ row ∈ call.commit s.db, row.ownerToken ≠ some token
  rw [hdb]
  rcases commit_cases hc call with hsame | ⟨c', hmove, hnew⟩
  · rw [hsame]
    exact hlost
  · rw [hnew]
    intro row hrow howner
    cases List.mem_singleton.mp hrow
    obtain ⟨o', ho', htoken⟩ := Option.map_eq_some_iff.mp howner
    rcases hmove.owner ho' with ⟨o, ho, heq⟩ | ⟨options, hcall, heq⟩
    · refine hlost c.toRow List.mem_cons_self ?_
      simp [Coordinator.toRow, ho, heq, htoken]
    · have hfresh := hadmissible.fresh hcall
      rw [heq, htoken] at hfresh
      exact hfresh h.owned

theorem replaced_steps {calls later : List Call} {s t : Shared} (hs : Run callMachine calls s) {token : String}
    (h : Replaced token s) (hlater : Steps callMachine s later t) : Replaced token t := by
  induction hlater with
  | nil => exact h
  | snoc hsteps hstep ih =>
    obtain ⟨s₀, hinit, hrun⟩ := hs
    exact replaced_step (good_run ⟨s₀, hinit, hrun.trans hsteps⟩) ih hstep

theorem replaced_unchanged {s : Shared} (hs : s.Good) {token : String} (h : Replaced token s) {call : Call}
    (hadmissible : call.Admissible s.owners s.db) (hcall : call.token = token) : call.commit s.db = s.db := by
  cases hregistration : call.registration? with
  | none => exact stale_unchanged hs hregistration fun row hrow => .inl (hcall ▸ h.lost row hrow)
  | some options =>
    have hfresh := hadmissible.fresh hregistration
    rw [← Call.registration_token hregistration, hcall] at hfresh
    exact absurd h.owned hfresh

/-- After any sequence of calls: a stale call changes no column, whatever table a
    heartbeat read before; a call that throws changes no column, and a registration that
    gives up leaves the table as the other processes left it; and from the moment a
    launcher has lost the row, no call with its token changes a column. -/
theorem calls_fenced {calls : List Call} {s : Shared} (h : Run callMachine calls s) :
    (∀ call : Call, call.registration? = none → (∀ row ∈ s.db, call.Stale row) → call.commit s.db = s.db) ∧
      (∀ (call : Call) (e : ReconcilerError), call.answer s.db = .error e → call.commit s.db = s.db) ∧
      (∀ (options : RegisterReconciliationOptions) (views : Fin admissionAttempts → AttemptView) (e : ReconcilerError) (db : Db),
        registerReconciliationRequest s.db options views = (.error e, db) →
          db = s.db ∨ ∃ i, db = (views i).observed ∨ db = (views i).current) ∧
      ∀ (later : List Call) (t : Shared) (call : Call), Steps callMachine s later t → Replaced call.token s →
        call.Admissible t.owners t.db → call.commit t.db = t.db := by
  refine ⟨?_, ?_, ?_, ?_⟩
  · intro call hcall hstale
    exact stale_unchanged (good_run h) hcall hstale
  · intro call e he
    exact commit_of_error he
  · intro options views e db hgaveUp
    unfold registerReconciliationRequest at hgaveUp
    split at hgaveUp
    · exact .inl (Prod.mk.inj hgaveUp).2.symm
    · rcases admissionLoop_gaveUp _ _ hgaveUp with hdb | ⟨view, hview, hdb⟩
      · exact .inl hdb
      · obtain ⟨i, rfl⟩ := List.mem_ofFn.mp hview
        exact .inr ⟨i, hdb⟩
  · intro later t call hlater hreplaced hadmissible
    obtain ⟨s₀, hinit, hrun⟩ := h
    have hgood : t.Good := good_run ⟨s₀, hinit, hrun.trans hlater⟩
    exact replaced_unchanged hgood (replaced_steps ⟨s₀, hinit, hrun⟩ hreplaced hlater) hadmissible rfl

/-- The row before the takeover. -/
def startedRow : RawStateRow :=
  ({ Coordinator.initial.acquire ⟨"owner-a", 100, 1, "birth-100", "cli", "human", none, 5⟩ with
      execution := some ⟨"execution-a", 1, 200, "birth-200", 200, posixExecutionBoundaryKind, "owner-a", .startAuthorized⟩ } :
    Coordinator).toRow

/-- The dead owner's heartbeat read the row it owned; the UPDATE comes after the takeover. -/
theorem calls_fenced_takeover : (heartbeatReconciler [startedRow] [startedRow] ⟨"owner-a", 100, 12⟩).1 = .ok true ∧
    (Call.heartbeat [startedRow] ⟨"owner-a", 100, 12⟩).commit [takeoverRow] = [takeoverRow] ∧
    (Call.finish ⟨"owner-a", 100, 1, true, 13⟩).commit [takeoverRow] = [takeoverRow] := by
  obtain ⟨hstale, -, -, hreplaced⟩ := calls_fenced takeover_run
  refine ⟨by decide, hstale _ rfl ?_, ?_⟩
  · intro row hrow
    cases List.mem_singleton.mp hrow
    exact .inl (by decide)
  · refine hreplaced [] _ (.finish ⟨"owner-a", 100, 1, true, 13⟩) .nil ⟨by decide, ?_⟩ rfl
    intro row hrow
    cases List.mem_singleton.mp hrow
    decide

end GitCommitsPush.Reconciliation
