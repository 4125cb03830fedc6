/-
  GitCommitsPush.Reconciliation.Coordinator — what the coordinator row stands for: two
  generation counters, at most one owner with its running generation, and at most one
  execution.

  `Coordinator.WF` is the row invariant. The reader accepts exactly the rows of
  well-formed coordinators (`read_toRow`, `read_ok`), so each operation of
  `Reconciliation.Reconciler` is, on such a row, one of the eight moves defined here
  (`attempt_ok` to `clear_ok`), and leaves the table alone when it throws
  (`transaction_error` and the `_error` lemmas). Every move keeps `WF`; becoming owner
  does when the new token is not the recorded execution's.
-/

import GitCommitsPush.Lib.Fallible
import GitCommitsPush.Reconciliation.Reconciler

namespace GitCommitsPush.Reconciliation

open GitCommitsPush.Lib.JsText
open GitCommitsPush.Lib.Fallible

structure Owner where
  token : String
  pid : Int
  bootEpochMs : Int
  processIdentity : String
  callerName : String
  originAgent : String
  sessionId : Option String
  heartbeat : Int
  running : Int
  deriving DecidableEq, Repr

structure Coordinator where
  requested : Int
  completed : Int
  owner : Option Owner
  execution : Option ActiveExecutionRecord
  deriving DecidableEq, Repr

namespace Coordinator

def initial : Coordinator := ⟨0, 0, none, none⟩

def toRow (c : Coordinator) : RawStateRow :=
  { singletonId := 1
    requestedGeneration := c.requested
    completedGeneration := c.completed
    runningGeneration := c.owner.map (·.running)
    ownerToken := c.owner.map (·.token)
    ownerPid := c.owner.map (·.pid)
    ownerBootEpochMs := c.owner.map (·.bootEpochMs)
    ownerProcessIdentity := c.owner.map (·.processIdentity)
    ownerCallerName := c.owner.map (·.callerName)
    ownerOriginAgent := c.owner.map (·.originAgent)
    ownerSessionId := c.owner.bind (·.sessionId)
    heartbeatAtEpochMs := c.owner.map (·.heartbeat)
    executionToken := c.execution.map (·.token)
    executionGeneration := c.execution.map (·.generation)
    executionPid := c.execution.map (·.pid)
    executionProcessIdentity := c.execution.map (·.processIdentity)
    executionGroupId := c.execution.map (·.groupId)
    executionBoundaryKind := c.execution.map (·.boundaryKind)
    executionOwnerToken := c.execution.map (·.ownerToken)
    executionState := c.execution.map (·.state.column) }

def record (c : Coordinator) : ReconcilerStateRecord :=
  { singletonId := 1
    requestedGeneration := c.requested
    completedGeneration := c.completed
    runningGeneration := c.owner.map (·.running)
    ownerToken := c.owner.map (·.token)
    ownerPid := c.owner.map (·.pid)
    ownerBootEpochMs := c.owner.map (·.bootEpochMs)
    ownerProcessIdentity := c.owner.map (·.processIdentity)
    ownerCallerName := c.owner.map (·.callerName)
    ownerOriginAgent := c.owner.map (·.originAgent)
    ownerSessionId := c.owner.bind (·.sessionId)
    heartbeatAtEpochMs := c.owner.map (·.heartbeat)
    activeExecution := c.execution }

end Coordinator

/-! ## The row invariant -/

structure Owner.Valid (o : Owner) : Prop where
  token : isNonEmpty (some o.token) = true
  pid : isPositiveInteger (some o.pid) = true
  boot : isSafeNonNegativeInteger (some o.bootEpochMs) = true
  identity : isNonEmpty (some o.processIdentity) = true
  caller : isNonEmpty (some o.callerName) = true
  origin : isNonEmpty (some o.originAgent) = true
  session : o.sessionId ≠ none → isNonEmpty o.sessionId = true
  heartbeat : isSafeNonNegativeInteger (some o.heartbeat) = true

structure ActiveExecutionRecord.Valid (e : ActiveExecutionRecord) : Prop where
  token : isNonEmpty (some e.token) = true
  pid : isPositiveInteger (some e.pid) = true
  leader : e.groupId = e.pid
  identity : isNonEmpty (some e.processIdentity) = true
  boundary : e.boundaryKind = posixExecutionBoundaryKind
  owner : isNonEmpty (some e.ownerToken) = true

structure Coordinator.WF (c : Coordinator) : Prop where
  completedNonneg : 0 ≤ c.completed
  completedLe : c.completed ≤ c.requested
  requestedSafe : c.requested ≤ maxSafeInteger
  ownerOk : ∀ o, c.owner = some o → o.Valid ∧ c.completed < o.running ∧ o.running ≤ c.requested
  executionOk : ∀ e, c.execution = some e → e.Valid ∧ c.completed < e.generation ∧
    ∃ o, c.owner = some o ∧ e.generation ≤ o.running ∧ (e.ownerToken = o.token ↔ e.generation = o.running)

theorem initial_wf : Coordinator.initial.WF := by
  refine ⟨by decide, by decide, by decide, ?_, ?_⟩ <;> intro _ h <;> cases h

theorem initial_toRow : [Coordinator.initial.toRow] = initialDb := rfl

/-! ## The reader accepts exactly the well-formed rows -/

@[simp] theorem isSafeNonNegativeInteger_some (n : Int) :
    isSafeNonNegativeInteger (some n) = true ↔ 0 ≤ n ∧ n ≤ maxSafeInteger := by
  simp only [isSafeNonNegativeInteger, isSafeInteger, Bool.and_eq_true, decide_eq_true_eq]
  constructor
  · rintro ⟨⟨_, h⟩, h0⟩; exact ⟨h0, h⟩
  · rintro ⟨h0, h⟩; exact ⟨⟨by unfold maxSafeInteger; omega, h⟩, h0⟩

@[simp] theorem isPositiveInteger_some (n : Int) :
    isPositiveInteger (some n) = true ↔ 0 < n ∧ n ≤ maxSafeInteger := by
  simp only [isPositiveInteger, Bool.and_eq_true, isSafeNonNegativeInteger_some, bne_iff_ne, ne_eq, Option.some.injEq]
  constructor
  · rintro ⟨⟨h0, h⟩, hne⟩; exact ⟨by omega, h⟩
  · rintro ⟨h0, h⟩; exact ⟨⟨by omega, h⟩, by omega⟩

theorem ActiveExecutionState.column_ne (s : ActiveExecutionState) :
    s.column = "REGISTERED" ∨ s.column = "START_AUTHORIZED" := by
  cases s
  · exact .inl rfl
  · exact .inr rfl

theorem ActiveExecutionState.ofColumn (s : ActiveExecutionState) :
    (if s.column = "REGISTERED" then ActiveExecutionState.registered else .startAuthorized) = s := by
  cases s <;> decide

theorem Coordinator.readActiveExecution_toRow {c : Coordinator} (hc : c.WF) :
    readActiveExecution c.toRow (c.owner.map (·.token)) (c.owner.map (·.running)) c.completed = .ok c.execution := by
  cases he : c.execution with
  | none => simp [readActiveExecution, executionPresentCount, Coordinator.toRow, he]
  | some e =>
    obtain ⟨hv, hlt, o, ho, hle, hiff⟩ := hc.executionOk e he
    have hreq := hc.requestedSafe
    have hcomp := hc.completedNonneg
    have hrun := (hc.ownerOk o ho).2.2
    have hsafe : isSafeNonNegativeInteger (some e.generation) = true :=
      (isSafeNonNegativeInteger_some _).mpr ⟨by omega, by omega⟩
    have hsame : (e.ownerToken == o.token) = (e.generation == o.running) := by
      rw [Bool.eq_iff_iff, beq_iff_eq, beq_iff_eq]; exact hiff
    have hstate := e.state.column_ne
    have hcol := e.state.ofColumn
    unfold readActiveExecution executionPresentCount
    simp only [Coordinator.toRow, he, ho, Option.map_some, Option.isSome_some, Option.getD_some, hsafe, hv.token,
      hv.pid, hv.identity, hv.owner, hv.leader, hv.boundary]
    have h1 : ¬ e.generation ≤ c.completed := by omega
    have h2 : ¬ e.generation > o.running := by omega
    have h3 : ¬ (e.state.column ≠ "REGISTERED" ∧ e.state.column ≠ "START_AUTHORIZED") := by
      rintro ⟨ha, hb⟩
      exact hstate.elim ha hb
    have hrec : ActiveExecutionRecord.mk e.token e.generation e.pid e.processIdentity e.pid posixExecutionBoundaryKind
        e.ownerToken e.state = e := by
      rw [← hv.boundary]
      have hl := hv.leader
      cases e
      simp_all
    simp [h1, h2, h3, hsame, hcol, hrec]

/-- The reader accepts the row of a well-formed coordinator. -/
theorem Coordinator.read_toRow {c : Coordinator} (hc : c.WF) : readReconcilerState [c.toRow] = .ok c.record := by
  have hreq : isSafeNonNegativeInteger (some c.requested) = true :=
    (isSafeNonNegativeInteger_some _).mpr ⟨by have := hc.completedNonneg; have := hc.completedLe; omega, hc.requestedSafe⟩
  have hcomp : isSafeNonNegativeInteger (some c.completed) = true :=
    (isSafeNonNegativeInteger_some _).mpr
      ⟨hc.completedNonneg, by have := hc.requestedSafe; have := hc.completedLe; omega⟩
  have hle : ¬ c.requested < c.completed := by have := hc.completedLe; omega
  have hexec := readActiveExecution_toRow hc
  unfold readReconcilerState
  cases ho : c.owner with
  | none =>
    simp only [ho, Option.map_none] at hexec
    simp [ownerFieldsPresent, toRow, record, ho, hreq, hcomp, hle] at hexec ⊢
    simp [hexec]
  | some o =>
    obtain ⟨hv, hlo, hhi⟩ := hc.ownerOk o ho
    have hrun : isSafeNonNegativeInteger (some o.running) = true :=
      (isSafeNonNegativeInteger_some _).mpr
        ⟨by have := hc.completedNonneg; omega, by have := hc.requestedSafe; omega⟩
    have h1 : ¬ o.running ≤ c.completed := by omega
    have h2 : ¬ c.requested < o.running := by omega
    simp only [ho, Option.map_some] at hexec
    simp [ownerFieldsPresent, toRow, record, ho, hreq, hcomp, hle, hrun, h1, h2, hv.token, hv.pid, hv.boot,
      hv.identity, hv.caller, hv.origin, hv.heartbeat] at hexec ⊢
    simpa [hexec] using hv.session

/-! ## The moves -/

namespace Coordinator

/-- A registration that found a live owner. -/
def coalesce (c : Coordinator) : Coordinator := { c with requested := c.requested + 1 }

/-- A registration that became owner; the execution is preserved. -/
def acquire (c : Coordinator) (options : RegisterReconciliationOptions) : Coordinator :=
  { c with
    requested := c.requested + 1
    owner := some
      { token := options.token
        pid := options.pid
        bootEpochMs := options.bootEpochMs
        processIdentity := options.processIdentity
        callerName := options.callerName
        originAgent := options.originAgent
        sessionId := options.originSessionId
        heartbeat := options.nowEpochMs
        running := c.requested + 1 } }

/-- `completed_generation` after a pass. -/
def completedAfter (c : Coordinator) (options : FinishReconciliationPassOptions) : Int :=
  if options.success then options.generation else c.completed

/-- A pass finished with newer requests waiting: the owner `o` keeps the row. -/
def continuePass (c : Coordinator) (options : FinishReconciliationPassOptions) (o : Owner) : Coordinator :=
  { c with
    completed := c.completedAfter options
    owner := some { o with running := c.requested, heartbeat := options.nowEpochMs } }

def stop (c : Coordinator) (options : FinishReconciliationPassOptions) : Coordinator :=
  { c with completed := c.completedAfter options, owner := none }

def beat (c : Coordinator) (o : Owner) (nowEpochMs : Int) : Coordinator :=
  { c with owner := some { o with heartbeat := nowEpochMs } }

def release (c : Coordinator) : Coordinator := { c with owner := none }

def registerExecution (c : Coordinator) (options : RegisterActiveExecutionOptions) : Coordinator :=
  { c with
    execution := some
      { token := options.executionToken
        generation := options.generation
        pid := options.executionPid
        processIdentity := options.executionProcessIdentity
        groupId := options.executionGroupId
        boundaryKind := options.executionBoundaryKind
        ownerToken := options.ownerToken
        state := .registered } }

def authorize (c : Coordinator) (e : ActiveExecutionRecord) : Coordinator :=
  { c with execution := some { e with state := .startAuthorized } }

def clearExecution (c : Coordinator) : Coordinator := { c with execution := none }

/-- `o` is the owner the row records, under this token and pid. -/
def OwnedBy (c : Coordinator) (o : Owner) (token : String) (pid : Int) : Prop :=
  c.owner = some o ∧ o.token = token ∧ o.pid = pid

end Coordinator

/-! ## Each operation is one move, or changes nothing -/

theorem updateState_ok {row : RawStateRow} {matching : RawStateRow → Bool} {set : RawStateRow → RawStateRow} {n : Nat}
    {db : Db} (h1 : row.singletonId = 1) (h : updateState [row] matching set = .ok (n, db)) :
    (matching row = true ∧ n = 1 ∧ db = [set row]) ∨ (matching row = false ∧ n = 0 ∧ db = [row]) := by
  simp only [updateState, ite_eq_ok, reduceCtorEq, and_false, or_false] at h
  obtain ⟨-, h⟩ := h
  cases hm : matching row <;> simp [h1, hm] at h
  · exact .inr ⟨rfl, h.1.symm, h.2.symm⟩
  · exact .inl ⟨rfl, h.1.symm, h.2.symm⟩

theorem updateState_all {row : RawStateRow} {set : RawStateRow → RawStateRow} {n : Nat} {db : Db}
    (h1 : row.singletonId = 1) (h : updateState [row] (fun _ => true) set = .ok (n, db)) : db = [set row] := by
  rcases updateState_ok h1 h with ⟨-, -, h⟩ | ⟨h, -⟩
  · exact h
  · cases h

theorem transaction_ok {α : Type} {db db' : Db} {operation : Db → Except ReconcilerError (α × Db)} {v : α} :
    runReconcilerTransaction db operation = (.ok v, db') ↔ operation db = .ok (v, db') := by
  unfold runReconcilerTransaction
  cases operation db <;> simp [Prod.ext_iff]

theorem transaction_error {α : Type} {db : Db} {operation : Db → Except ReconcilerError (α × Db)} {e : ReconcilerError}
    (h : (runReconcilerTransaction db operation).1 = .error e) : (runReconcilerTransaction db operation).2 = db := by
  unfold runReconcilerTransaction at h ⊢
  cases ho : operation db with
  | ok r => rw [ho] at h; cases h
  | error e => rfl

section Operations

variable {c : Coordinator} (hc : c.WF)

theorem not_fenced_iff {token : String} {pid : Int} :
    ¬ (c.record.ownerToken ≠ some token ∨ c.record.ownerPid ≠ some pid) ↔ ∃ o, c.OwnedBy o token pid := by
  unfold Coordinator.OwnedBy Coordinator.record
  cases c.owner with
  | none => simp
  | some o => simp

theorem assertOwner_ok {token : String} {pid : Int} {u : Unit} :
    assertOwner c.record token pid = .ok u ↔ ∃ o, c.OwnedBy o token pid := by
  rw [← not_fenced_iff]
  simp only [assertOwner, ite_eq_ok, reduceCtorEq, and_false, false_or, and_true]

theorem heartbeat_ok {options : HeartbeatOptions} {n : Nat} {db : Db}
    (h : heartbeatUpdate [c.toRow] options = .ok (n, db)) :
    (∃ o, c.OwnedBy o options.token options.pid ∧ db = [(c.beat o options.nowEpochMs).toRow]) ∨ db = [c.toRow] := by
  rcases updateState_ok rfl h with ⟨hm, -, rfl⟩ | ⟨-, -, rfl⟩
  · refine .inl ?_
    cases ho : c.owner with
    | none => simp [Coordinator.toRow, ho] at hm
    | some o =>
      simp only [Coordinator.toRow, ho, Option.map_some, Bool.and_eq_true, beq_iff_eq, Option.some.injEq] at hm
      exact ⟨o, ⟨ho, hm.1, hm.2⟩, by simp [Coordinator.beat, Coordinator.toRow, ho]⟩
  · exact .inr rfl

include hc

theorem attempt_ok {options : RegisterReconciliationOptions} {observed : ReconcilerStateRecord} {alive : Bool}
    {r : RegisterReconciliationResult} {db : Db}
    (h : registrationAttempt options observed alive [c.toRow] = (.ok r, db)) :
    ownerMatchesObservation c.record observed = true ∧
      ((alive = true ∧ r = .coalesced (c.requested + 1) (c.owner.map (·.pid)) (c.owner.map (·.callerName)) ∧
          db = [c.coalesce.toRow]) ∨
        (alive = false ∧ r = .owner (c.requested + 1) c.completed c.owner.isSome (c.owner.map (·.pid))
            c.execution.isSome ∧ db = [(c.acquire options).toRow])) := by
  simp only [registrationAttempt, transaction_ok, Coordinator.read_toRow hc, bind_eq_ok, Except.ok.injEq, guard_eq_ok,
    exists_eq_left', Bool.not_eq_false] at h
  obtain ⟨hm, h⟩ := h
  refine ⟨hm, ?_⟩
  cases alive with
  | true =>
    simp only [if_true, bind_eq_ok, pure_eq_ok, Prod.mk.injEq] at h
    obtain ⟨⟨n, db'⟩, hu, rfl, rfl⟩ := h
    exact .inl ⟨rfl, rfl, updateState_all rfl hu⟩
  | false =>
    simp only [Bool.false_eq_true, if_false, bind_eq_ok, pure_eq_ok, Prod.mk.injEq] at h
    obtain ⟨⟨n, db'⟩, hu, rfl, rfl⟩ := h
    exact .inr ⟨rfl, by simp [Coordinator.record], updateState_all rfl hu⟩

theorem finish_ok {options : FinishReconciliationPassOptions} {r : FinishReconciliationResult} {db : Db}
    (h : finishReconciliationPass [c.toRow] options = (.ok r, db)) :
    ∃ o, c.OwnedBy o options.token options.pid ∧ c.execution = none ∧ o.running = options.generation ∧
      ((options.generation < c.requested ∧ r = .continue c.requested (c.completedAfter options) options.success ∧
          db = [(c.continuePass options o).toRow]) ∨
        (c.requested ≤ options.generation ∧ r = (if options.success then .stopSuccess (c.completedAfter options)
            else .stopFailed (c.completedAfter options)) ∧ db = [(c.stop options).toRow])) := by
  simp only [finishReconciliationPass, transaction_ok, Coordinator.read_toRow hc, bind_eq_ok, Except.ok.injEq,
    guard_eq_ok, exists_eq_left', not_fenced_iff] at h
  obtain ⟨⟨o, ho⟩, hexec, hrun, h⟩ := h
  obtain ⟨ho1, ho2, ho3⟩ := ho
  have hexec : c.execution = none := by simpa [Coordinator.record] using hexec
  have hrun : o.running = options.generation := by simpa [Coordinator.record, ho1] using hrun
  refine ⟨o, ⟨ho1, ho2, ho3⟩, hexec, hrun, ?_⟩
  simp only [ite_eq_ok, bind_eq_ok, pure_eq_ok, Prod.mk.injEq] at h
  rcases h with ⟨hlt, ⟨n, db'⟩, hu, rfl, rfl⟩ | ⟨hge, ⟨n, db'⟩, hu, rfl, rfl⟩
  · refine .inl ⟨hlt, rfl, ?_⟩
    rw [updateState_all rfl hu]
    simp [Coordinator.continuePass, Coordinator.toRow, Coordinator.completedAfter, Coordinator.record, ho1]
  · refine .inr ⟨Int.not_lt.mp hge, rfl, ?_⟩
    rw [updateState_all rfl hu]
    simp [Coordinator.stop, Coordinator.toRow, Coordinator.completedAfter, Coordinator.record,
      RawStateRow.clearOwner]

theorem release_ok {options : ReleaseOwnershipOptions} {b : Bool} {db : Db}
    (h : releaseReconciliationOwnership [c.toRow] options = (.ok b, db)) :
    (∃ o, c.OwnedBy o options.token options.pid ∧ c.execution = none ∧ b = true ∧ db = [c.release.toRow]) ∨
      (b = false ∧ db = [c.toRow]) := by
  simp only [releaseReconciliationOwnership, transaction_ok, Coordinator.read_toRow hc, bind_eq_ok, Except.ok.injEq,
    exists_eq_left', ite_eq_ok, pure_eq_ok, Prod.mk.injEq] at h
  rcases h with ⟨-, rfl, rfl⟩ | ⟨hf, ⟨-, rfl, rfl⟩ | ⟨hexec, ⟨n, db'⟩, hu, rfl, rfl⟩⟩
  · exact .inr ⟨rfl, rfl⟩
  · exact .inr ⟨rfl, rfl⟩
  · obtain ⟨o, ho⟩ := not_fenced_iff.mp hf
    have hexec : c.execution = none := by simpa [Coordinator.record] using hexec
    obtain ⟨ho1, ho2, ho3⟩ := ho
    rcases updateState_ok rfl hu with ⟨-, rfl, rfl⟩ | ⟨hm, -⟩
    · exact .inl ⟨o, ⟨ho1, ho2, ho3⟩, hexec, rfl,
        by simp [Coordinator.release, Coordinator.toRow, RawStateRow.clearOwner]⟩
    · simp [Coordinator.toRow, ho1, ho2, ho3] at hm

theorem registerExecution_ok {options : RegisterActiveExecutionOptions} {e : ActiveExecutionRecord} {db : Db}
    (h : registerActiveExecution [c.toRow] options = (.ok e, db)) :
    ∃ o, c.OwnedBy o options.ownerToken options.ownerPid ∧ c.execution = none ∧ o.running = options.generation ∧
      assertExecutionOptions options = .ok () ∧ db = [(c.registerExecution options).toRow] := by
  unfold registerActiveExecution at h
  cases hv : assertExecutionOptions options with
  | error e => rw [hv] at h; cases h
  | ok u =>
    simp only [hv, transaction_ok, Coordinator.read_toRow hc, bind_eq_ok, Except.ok.injEq, guard_eq_ok,
      exists_eq_left', assertOwner_ok] at h
    obtain ⟨u, ⟨o, ho1, ho2, ho3⟩, hrun, hexec, ⟨n, db'⟩, hu, st, hst, h⟩ := h
    have hexec : c.execution = none := by simpa [Coordinator.record] using hexec
    have hrun : o.running = options.generation := by simpa [Coordinator.record, ho1] using hrun
    refine ⟨o, ⟨ho1, ho2, ho3⟩, hexec, hrun, rfl, ?_⟩
    split at h
    · simp only [throw_eq_ok] at h
    · simp only [pure_eq_ok, Prod.mk.injEq] at h
      rw [← h.2, updateState_all rfl hu]
      rfl

theorem authorize_ok {options : FenceActiveExecutionOptions} {b : Bool} {db : Db}
    (h : authorizeActiveExecutionStart [c.toRow] options = (.ok b, db)) :
    (∃ o, c.OwnedBy o options.ownerToken options.ownerPid) ∧
      ((∃ e, c.execution = some e ∧ e.token = options.executionToken ∧ e.ownerToken = options.ownerToken ∧
          e.state = .registered ∧ b = true ∧ db = [(c.authorize e).toRow]) ∨ (b = false ∧ db = [c.toRow])) := by
  simp only [authorizeActiveExecutionStart, transaction_ok, Coordinator.read_toRow hc, bind_eq_ok, Except.ok.injEq,
    exists_eq_left', assertOwner_ok] at h
  obtain ⟨u, ho, h⟩ := h
  refine ⟨ho, ?_⟩
  have hrec : c.record.activeExecution = c.execution := rfl
  cases he : c.execution with
  | none =>
    simp only [hrec, he, pure_eq_ok, Prod.mk.injEq] at h
    exact .inr ⟨h.1.symm, h.2.symm⟩
  | some e =>
    simp only [hrec, he, ite_eq_ok, bind_eq_ok, pure_eq_ok, Prod.mk.injEq, not_or, Classical.not_not] at h
    rcases h with ⟨-, rfl, rfl⟩ | ⟨⟨ht, hot⟩, ⟨-, rfl, rfl⟩ | ⟨hs, ⟨n, db'⟩, hu, rfl, rfl⟩⟩
    · exact .inr ⟨rfl, rfl⟩
    · exact .inr ⟨rfl, rfl⟩
    · rcases updateState_ok rfl hu with ⟨-, rfl, rfl⟩ | ⟨hm, -⟩
      · exact .inl ⟨e, rfl, ht, hot, hs, rfl, by simp [Coordinator.authorize, Coordinator.toRow, he]⟩
      · simp [Coordinator.toRow, he, ht] at hm

theorem clearExecution_ok {options : FenceActiveExecutionOptions} {b : Bool} {db : Db}
    (h : clearActiveExecution [c.toRow] options = (.ok b, db)) :
    (∃ o, c.OwnedBy o options.ownerToken options.ownerPid) ∧
      ((∃ e, c.execution = some e ∧ e.token = options.executionToken ∧ b = true ∧ db = [c.clearExecution.toRow]) ∨
        (b = false ∧ db = [c.toRow])) := by
  simp only [clearActiveExecution, transaction_ok, Coordinator.read_toRow hc, bind_eq_ok, Except.ok.injEq,
    exists_eq_left', assertOwner_ok, ite_eq_ok, pure_eq_ok, Prod.mk.injEq, Classical.not_not] at h
  obtain ⟨u, ho, h⟩ := h
  refine ⟨ho, ?_⟩
  rcases h with ⟨-, rfl, rfl⟩ | ⟨ht, ⟨n, db'⟩, hu, rfl, rfl⟩
  · exact .inr ⟨rfl, rfl⟩
  · cases he : c.execution with
    | none => simp [Coordinator.record, he] at ht
    | some e =>
      have ht : e.token = options.executionToken := by simpa [Coordinator.record, he] using ht
      rcases updateState_ok rfl hu with ⟨-, rfl, rfl⟩ | ⟨hm, -⟩
      · exact .inl ⟨e, rfl, ht, rfl, rfl⟩
      · simp [Coordinator.toRow, he, ht] at hm

end Operations

/-! ## An operation that throws changes nothing -/

theorem attempt_error {options : RegisterReconciliationOptions} {observed : ReconcilerStateRecord} {alive : Bool}
    {db : Db} {e : ReconcilerError} (h : (registrationAttempt options observed alive db).1 = .error e) :
    (registrationAttempt options observed alive db).2 = db := transaction_error h

theorem finish_error {options : FinishReconciliationPassOptions} {db : Db} {e : ReconcilerError}
    (h : (finishReconciliationPass db options).1 = .error e) : (finishReconciliationPass db options).2 = db :=
  transaction_error h

theorem release_error {options : ReleaseOwnershipOptions} {db : Db} {e : ReconcilerError}
    (h : (releaseReconciliationOwnership db options).1 = .error e) : (releaseReconciliationOwnership db options).2 = db :=
  transaction_error h

theorem registerExecution_error {options : RegisterActiveExecutionOptions} {db : Db} {e : ReconcilerError}
    (h : (registerActiveExecution db options).1 = .error e) : (registerActiveExecution db options).2 = db := by
  unfold registerActiveExecution at h ⊢
  cases hv : assertExecutionOptions options with
  | error e => rfl
  | ok u => rw [hv] at h; exact transaction_error h

theorem authorize_error {options : FenceActiveExecutionOptions} {db : Db} {e : ReconcilerError}
    (h : (authorizeActiveExecutionStart db options).1 = .error e) : (authorizeActiveExecutionStart db options).2 = db :=
  transaction_error h

theorem clearExecution_error {options : FenceActiveExecutionOptions} {db : Db} {e : ReconcilerError}
    (h : (clearActiveExecution db options).1 = .error e) : (clearActiveExecution db options).2 = db :=
  transaction_error h

/-! ## Every move keeps the row invariant -/

theorem registrationOptions_valid {options : RegisterReconciliationOptions}
    (h : assertRegistrationOptions options = .ok ()) (running : Int) :
    (Owner.mk options.token options.pid options.bootEpochMs options.processIdentity options.callerName
      options.originAgent options.originSessionId options.nowEpochMs running).Valid := by
  unfold assertRegistrationOptions at h
  simp only [ite_eq_ok, reduceCtorEq, and_false, false_or, and_true, not_or, Bool.not_eq_false] at h
  obtain ⟨h1, h2, h3, h4, ⟨h5, h6⟩, h7, h8⟩ := h
  refine ⟨h1, h2, h3, h4, h5, h6, fun hne => ?_, h8⟩
  have h7 := not_and.mp h7 hne
  simpa using h7

theorem executionOptions_valid {options : RegisterActiveExecutionOptions} (h : assertExecutionOptions options = .ok ()) :
    (ActiveExecutionRecord.mk options.executionToken options.generation options.executionPid
      options.executionProcessIdentity options.executionGroupId options.executionBoundaryKind options.ownerToken
      .registered).Valid := by
  simp only [assertExecutionOptions, requireNonEmpty, requirePositiveInteger, bind_eq_ok, ite_eq_ok, throw_eq_ok,
    reduceCtorEq, and_false, false_and, exists_false, false_or, or_false, Classical.not_not, pure_eq_ok] at h
  obtain ⟨_, ⟨h1, -⟩, _, ⟨h2, -⟩, _, ⟨h3, -⟩, _, ⟨h4, -⟩, _, ⟨h5, -⟩, _, ⟨h6, -⟩, _, ⟨h7, -⟩, h8, h9, -⟩ := h
  exact ⟨h2, h6, h8.symm, h3, h9, h1⟩

namespace Coordinator

variable {c : Coordinator} (hc : c.WF)

include hc

theorem coalesce_wf (hlt : c.requested < maxSafeInteger) : c.coalesce.WF := by
  refine ⟨hc.completedNonneg, ?_, ?_, fun o ho => ?_, hc.executionOk⟩
  · have := hc.completedLe; simp only [coalesce]; omega
  · simp only [coalesce]; omega
  · obtain ⟨hv, h1, h2⟩ := hc.ownerOk o ho
    exact ⟨hv, h1, by simp only [coalesce]; omega⟩

/-- The only move that needs more than the row: an owner whose token is the recorded
    execution's would own an older generation's execution. -/
theorem acquire_wf {options : RegisterReconciliationOptions} (hlt : c.requested < maxSafeInteger)
    (ho : assertRegistrationOptions options = .ok ())
    (hfresh : ∀ e, c.execution = some e → e.ownerToken ≠ options.token) : (c.acquire options).WF := by
  have hle := hc.completedLe
  refine ⟨hc.completedNonneg, ?_, ?_, fun o h => ?_, fun e he => ?_⟩
  · simp only [acquire]; omega
  · simp only [acquire]; omega
  · cases h
    exact ⟨registrationOptions_valid ho _, by simp only [acquire]; omega, by simp only [acquire]; omega⟩
  · obtain ⟨hv, h1, o, h2, h3, -⟩ := hc.executionOk e he
    have h4 := (hc.ownerOk o h2).2.2
    refine ⟨hv, h1, _, rfl, by simp only; omega, ?_⟩
    constructor
    · intro h; exact absurd h (hfresh e he)
    · intro h; simp only at h; omega

variable {o : Owner}

theorem continuePass_wf {options : FinishReconciliationPassOptions} (ho : c.owner = some o)
    (hexec : c.execution = none) (hrun : o.running = options.generation) (hlt : options.generation < c.requested)
    (hclock : isSafeNonNegativeInteger (some options.nowEpochMs) = true) : (c.continuePass options o).WF := by
  obtain ⟨hv, h1, h2⟩ := hc.ownerOk o ho
  have h0 := hc.completedNonneg
  have hcomp : 0 ≤ c.completedAfter options ∧ c.completedAfter options < c.requested := by
    unfold completedAfter; split <;> omega
  refine ⟨hcomp.1, ?_, hc.requestedSafe, fun p hp => ?_, fun e he => ?_⟩
  · simp only [continuePass]; omega
  · cases hp
    exact ⟨{ hv with heartbeat := hclock }, hcomp.2, by simp [continuePass]⟩
  · simp [continuePass, hexec] at he

theorem stop_wf {options : FinishReconciliationPassOptions} (ho : c.owner = some o) (hexec : c.execution = none)
    (hrun : o.running = options.generation) : (c.stop options).WF := by
  obtain ⟨-, h1, h2⟩ := hc.ownerOk o ho
  have h0 := hc.completedNonneg
  have hle := hc.completedLe
  have hcomp : 0 ≤ c.completedAfter options ∧ c.completedAfter options ≤ c.requested := by
    unfold completedAfter; split <;> omega
  exact ⟨hcomp.1, hcomp.2, hc.requestedSafe, fun p hp => by simp [stop] at hp, fun e he => by simp [stop, hexec] at he⟩

theorem beat_wf {nowEpochMs : Int} (ho : c.owner = some o)
    (hclock : isSafeNonNegativeInteger (some nowEpochMs) = true) : (c.beat o nowEpochMs).WF := by
  obtain ⟨hv, h1, h2⟩ := hc.ownerOk o ho
  refine ⟨hc.completedNonneg, hc.completedLe, hc.requestedSafe, fun p hp => ?_, fun e he => ?_⟩
  · cases hp; exact ⟨{ hv with heartbeat := hclock }, h1, h2⟩
  · obtain ⟨hev, h3, p, hp, h4⟩ := hc.executionOk e he
    rw [ho] at hp
    cases hp
    exact ⟨hev, h3, _, rfl, h4⟩

theorem release_wf (hexec : c.execution = none) : c.release.WF :=
  ⟨hc.completedNonneg, hc.completedLe, hc.requestedSafe, fun p hp => by simp [release] at hp,
    fun e he => by simp [release, hexec] at he⟩

theorem registerExecution_wf {options : RegisterActiveExecutionOptions} (ho : c.owner = some o)
    (ht : o.token = options.ownerToken) (hrun : o.running = options.generation)
    (hv : assertExecutionOptions options = .ok ()) : (c.registerExecution options).WF := by
  refine ⟨hc.completedNonneg, hc.completedLe, hc.requestedSafe, hc.ownerOk, fun e he => ?_⟩
  cases he
  obtain ⟨-, h1, -⟩ := hc.ownerOk o ho
  exact ⟨executionOptions_valid hv, by simpa only [registerExecution, ← hrun] using h1, o, ho, by simp [hrun], by simp [ht, hrun]⟩

theorem authorize_wf {e : ActiveExecutionRecord} (he : c.execution = some e) : (c.authorize e).WF := by
  refine ⟨hc.completedNonneg, hc.completedLe, hc.requestedSafe, hc.ownerOk, fun e' he' => ?_⟩
  cases he'
  obtain ⟨hv, h⟩ := hc.executionOk e he
  exact ⟨{ hv with }, h⟩

theorem clearExecution_wf : c.clearExecution.WF :=
  ⟨hc.completedNonneg, hc.completedLe, hc.requestedSafe, hc.ownerOk, fun e he => by simp [clearExecution] at he⟩

end Coordinator

end GitCommitsPush.Reconciliation
