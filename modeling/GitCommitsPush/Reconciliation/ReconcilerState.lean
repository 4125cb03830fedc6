/-
  GitCommitsPush.Reconciliation.ReconcilerState — the singleton coordinator row and its
  fail-closed reader (`reconciler-state.ts`), with the table it lives in
  (`reconciler-db.ts`).

  A row is the twenty columns of `reconciler_state`. `readReconcilerState` makes every
  check of the source, in its order and with its messages. `updateState` is one UPDATE
  of the table: it fails on the table's CHECK constraints and answers the number of
  rows it changed. `runReconcilerTransaction` keeps the table an operation was given
  when the operation throws.
-/

import GitCommitsPush.Lib.JsText

namespace GitCommitsPush.Reconciliation

open GitCommitsPush.Lib.JsText

inductive ReconcilerError where
  | invariant (message : String)
  | fenced (message : String)
  | type (message : String)
  /-- `ReconciliationOwnerChanged`: caught by the admission loop. -/
  | ownerChanged
  | sqlite (message : String)
  deriving DecidableEq, Repr

def posixExecutionBoundaryKind : String := "posix-session-process-group-v1"

inductive ActiveExecutionState where
  | registered
  | startAuthorized
  deriving DecidableEq, Repr

def ActiveExecutionState.column : ActiveExecutionState → String
  | .registered => "REGISTERED"
  | .startAuthorized => "START_AUTHORIZED"

structure ActiveExecutionRecord where
  token : String
  generation : Int
  pid : Int
  processIdentity : String
  groupId : Int
  boundaryKind : String
  ownerToken : String
  state : ActiveExecutionState
  deriving DecidableEq, Repr

structure ReconcilerStateRecord where
  singletonId : Int
  requestedGeneration : Int
  completedGeneration : Int
  runningGeneration : Option Int
  ownerToken : Option String
  ownerPid : Option Int
  ownerBootEpochMs : Option Int
  ownerProcessIdentity : Option String
  ownerCallerName : Option String
  ownerOriginAgent : Option String
  ownerSessionId : Option String
  heartbeatAtEpochMs : Option Int
  activeExecution : Option ActiveExecutionRecord
  deriving DecidableEq, Repr

structure RawStateRow where
  singletonId : Int
  requestedGeneration : Int
  completedGeneration : Int
  runningGeneration : Option Int
  ownerToken : Option String
  ownerPid : Option Int
  ownerBootEpochMs : Option Int
  ownerProcessIdentity : Option String
  ownerCallerName : Option String
  ownerOriginAgent : Option String
  ownerSessionId : Option String
  heartbeatAtEpochMs : Option Int
  executionToken : Option String
  executionGeneration : Option Int
  executionPid : Option Int
  executionProcessIdentity : Option String
  executionGroupId : Option Int
  executionBoundaryKind : Option String
  executionOwnerToken : Option String
  executionState : Option String
  deriving DecidableEq, Repr

/-- The table: `SELECT * FROM reconciler_state`. -/
abbrev Db := List RawStateRow

/-! ## The reader -/

def isSafeNonNegativeInteger : Option Int → Bool
  | some v => isSafeInteger v && 0 ≤ v
  | none => false

def isPositiveInteger (v : Option Int) : Bool := isSafeNonNegativeInteger v && v != some 0

def isNonEmpty : Option String → Bool
  | some v => trimString v != ""
  | none => false

/-- `String(value)` of a nullable column. -/
def nullable {α : Type} [ToString α] : Option α → String
  | some v => toString v
  | none => "null"

def executionPresentCount (row : RawStateRow) : Nat :=
  [row.executionToken.isSome, row.executionGeneration.isSome, row.executionPid.isSome,
    row.executionProcessIdentity.isSome, row.executionGroupId.isSome, row.executionBoundaryKind.isSome,
    row.executionOwnerToken.isSome, row.executionState.isSome].count true

def readActiveExecution (row : RawStateRow) (ownerToken : Option String) (runningGeneration : Option Int)
    (completedGeneration : Int) : Except ReconcilerError (Option ActiveExecutionRecord) :=
  if executionPresentCount row = 0 then .ok none
  else if executionPresentCount row ≠ 8 then
    .error (.invariant "active execution fields must be set and cleared together")
  else if ownerToken = none ∨ runningGeneration = none then
    .error (.invariant "an active execution requires an active reconciliation owner")
  else if isSafeNonNegativeInteger row.executionGeneration = false ∨
      row.executionGeneration.getD 0 ≤ completedGeneration ∨
      row.executionGeneration.getD 0 > runningGeneration.getD 0 then
    .error (.invariant (s!"execution_generation ({nullable row.executionGeneration}) must be > " ++
      s!"completed_generation ({completedGeneration}) and <= running_generation ({nullable runningGeneration})"))
  else if isPositiveInteger row.executionPid = false ∨ isPositiveInteger row.executionGroupId = false ∨
      row.executionPid ≠ row.executionGroupId then
    .error (.invariant "execution pid and process-group id must be the same positive integer")
  else if isNonEmpty row.executionToken = false ∨ isNonEmpty row.executionProcessIdentity = false ∨
      isNonEmpty row.executionOwnerToken = false then
    .error (.invariant "active execution tokens and process identity must be non-empty")
  else if row.executionBoundaryKind ≠ some posixExecutionBoundaryKind then
    .error (.invariant s!"unsupported execution boundary kind: {nullable row.executionBoundaryKind}")
  else if row.executionState ≠ some "REGISTERED" ∧ row.executionState ≠ some "START_AUTHORIZED" then
    .error (.invariant s!"invalid active execution state: {nullable row.executionState}")
  else if (row.executionOwnerToken == ownerToken) != (row.executionGeneration == runningGeneration) then
    .error (.invariant ("an execution belongs either to the current running owner or to an older generation " ++
      "under explicit recovery"))
  else .ok (some
    { token := row.executionToken.getD ""
      generation := row.executionGeneration.getD 0
      pid := row.executionPid.getD 0
      processIdentity := row.executionProcessIdentity.getD ""
      groupId := row.executionGroupId.getD 0
      boundaryKind := posixExecutionBoundaryKind
      ownerToken := row.executionOwnerToken.getD ""
      state := if row.executionState = some "REGISTERED" then .registered else .startAuthorized })

/-- The owner columns that are set and cleared with `running_generation`. -/
def ownerFieldsPresent (row : RawStateRow) : List Bool :=
  [row.ownerToken.isSome, row.ownerPid.isSome, row.ownerBootEpochMs.isSome, row.ownerProcessIdentity.isSome,
    row.ownerCallerName.isSome, row.ownerOriginAgent.isSome]

def readReconcilerState : Db → Except ReconcilerError ReconcilerStateRecord
  | [row] =>
    if row.singletonId ≠ 1 then
      .error (.invariant s!"reconciler_state singleton_id must be 1, found {row.singletonId}")
    else if isSafeNonNegativeInteger (some row.requestedGeneration) = false then
      .error (.invariant s!"reconciler_state requested_generation is invalid: {row.requestedGeneration}")
    else if isSafeNonNegativeInteger (some row.completedGeneration) = false then
      .error (.invariant s!"reconciler_state completed_generation is invalid: {row.completedGeneration}")
    else if row.requestedGeneration < row.completedGeneration then
      .error (.invariant (s!"requested_generation ({row.requestedGeneration}) must be >= " ++
        s!"completed_generation ({row.completedGeneration})"))
    else if (ownerFieldsPresent row).any (· != row.runningGeneration.isSome) then
      .error (.invariant ("owner token, pid, boot epoch, process identity, caller, origin and running generation " ++
        "must be set and cleared together"))
    else if row.runningGeneration = none ∧ row.ownerSessionId ≠ none then
      .error (.invariant "owner session id must be cleared when no owner is active")
    else if row.runningGeneration ≠ none ∧ (isSafeNonNegativeInteger row.runningGeneration = false ∨
        row.runningGeneration.getD 0 ≤ row.completedGeneration ∨
        row.runningGeneration.getD 0 > row.requestedGeneration) then
      .error (.invariant (s!"running_generation ({nullable row.runningGeneration}) must be > " ++
        s!"completed_generation ({row.completedGeneration}) and <= requested_generation ({row.requestedGeneration})"))
    else if row.runningGeneration ≠ none ∧ (isSafeNonNegativeInteger row.ownerBootEpochMs = false ∨
        isPositiveInteger row.ownerPid = false ∨ isSafeNonNegativeInteger row.heartbeatAtEpochMs = false ∨
        isNonEmpty row.ownerToken = false ∨ isNonEmpty row.ownerProcessIdentity = false ∨
        isNonEmpty row.ownerCallerName = false ∨ isNonEmpty row.ownerOriginAgent = false ∨
        (row.ownerSessionId ≠ none ∧ isNonEmpty row.ownerSessionId = false)) then
      .error (.invariant "active owner metadata must contain a heartbeat and valid non-empty identity fields")
    else if row.runningGeneration = none ∧ row.heartbeatAtEpochMs ≠ none then
      .error (.invariant "heartbeat_at_epoch_ms must be cleared when no owner is active")
    else
      match readActiveExecution row row.ownerToken row.runningGeneration row.completedGeneration with
      | .error e => .error e
      | .ok activeExecution => .ok
        { singletonId := row.singletonId
          requestedGeneration := row.requestedGeneration
          completedGeneration := row.completedGeneration
          runningGeneration := row.runningGeneration
          ownerToken := row.ownerToken
          ownerPid := row.ownerPid
          ownerBootEpochMs := row.ownerBootEpochMs
          ownerProcessIdentity := row.ownerProcessIdentity
          ownerCallerName := row.ownerCallerName
          ownerOriginAgent := row.ownerOriginAgent
          ownerSessionId := row.ownerSessionId
          heartbeatAtEpochMs := row.heartbeatAtEpochMs
          activeExecution }
  | rows => .error (.invariant s!"reconciler_state must contain exactly one row, found {rows.length}")

/-! ## The table -/

/-- The row `openReconcilerDb` inserts. -/
def initialRow : RawStateRow :=
  { singletonId := 1, requestedGeneration := 0, completedGeneration := 0, runningGeneration := none,
    ownerToken := none, ownerPid := none, ownerBootEpochMs := none, ownerProcessIdentity := none,
    ownerCallerName := none, ownerOriginAgent := none, ownerSessionId := none, heartbeatAtEpochMs := none,
    executionToken := none, executionGeneration := none, executionPid := none, executionProcessIdentity := none,
    executionGroupId := none, executionBoundaryKind := none, executionOwnerToken := none, executionState := none }

def initialDb : Db := [initialRow]

/-- The CHECK constraints of `CREATE TABLE reconciler_state`. -/
def satisfiesChecks (row : RawStateRow) : Bool :=
  row.singletonId == 1 && decide (row.completedGeneration ≤ row.requestedGeneration)

/-- `UPDATE reconciler_state SET … WHERE singleton_id = 1 AND …`, with the number of
    rows changed. -/
def updateState (db : Db) (matching : RawStateRow → Bool) (set : RawStateRow → RawStateRow) :
    Except ReconcilerError (Nat × Db) :=
  let hit := fun row : RawStateRow => row.singletonId == 1 && matching row
  let db' := db.map fun row => if hit row then set row else row
  if db'.all satisfiesChecks then .ok ((db.filter hit).length, db')
  else .error (.sqlite "CHECK constraint failed: reconciler_state")

def runReconcilerTransaction {α : Type} (db : Db) (operation : Db → Except ReconcilerError (α × Db)) :
    Except ReconcilerError α × Db :=
  match operation db with
  | .ok (value, db') => (.ok value, db')
  | .error e => (.error e, db)

end GitCommitsPush.Reconciliation
