/-
  GitCommitsPush.Reconciliation.Reconciler — the coordinator's seven operations
  (`reconciler.ts`, `active-execution-state.ts`), each as the source computes it on the
  table it is given.

  `registerReconciliationRequest` reads the row and the owner's liveness before its
  transaction, so one attempt is given an `AttemptView`: the table it read, the answers
  it got and the table its transaction begins on. `registrationAttempt` is the
  transaction alone. `heartbeatReconciler` reads and writes in separate statements, so
  it is given both tables.
-/

import GitCommitsPush.Reconciliation.ReconcilerState

namespace GitCommitsPush.Reconciliation

open GitCommitsPush.Lib.JsText

/-! ## Admission -/

structure RegisterReconciliationOptions where
  token : String
  pid : Int
  bootEpochMs : Int
  processIdentity : String
  callerName : String
  originAgent : String
  originSessionId : Option String
  nowEpochMs : Int
  deriving DecidableEq, Repr

inductive RegisterReconciliationResult where
  | owner (generation completedGeneration : Int) (recovered : Bool) (previousOwnerPid : Option Int)
      (requiresExecutionRecovery : Bool)
  | coalesced (generation : Int) (ownerPid : Option Int) (ownerCallerName : Option String)
  deriving DecidableEq, Repr

def RegisterReconciliationResult.generation : RegisterReconciliationResult → Int
  | .owner g _ _ _ _ => g
  | .coalesced g _ _ => g

/-- The process table as `process-identity.ts` reads it. -/
structure Liveness where
  isProcessAlive : Int → Bool
  readProcessStartIdentity : Int → Option String

def ownerIsAlive (liveness : Liveness) (state : ReconcilerStateRecord) : Bool :=
  match state.ownerToken, state.ownerPid, state.ownerProcessIdentity, state.runningGeneration with
  | some _, some pid, some identity, some _ =>
    if !liveness.isProcessAlive pid then false
    else match liveness.readProcessStartIdentity pid with
      | none => true
      | some current => current == identity
  | _, _, _, _ => false

def assertRegistrationOptions (options : RegisterReconciliationOptions) : Except ReconcilerError Unit :=
  if isNonEmpty (some options.token) = false then .error (.type "owner token must not be empty")
  else if isPositiveInteger (some options.pid) = false then .error (.type "owner pid must be a positive integer")
  else if isSafeNonNegativeInteger (some options.bootEpochMs) = false then
    .error (.type "owner boot epoch must be a non-negative integer")
  else if isNonEmpty (some options.processIdentity) = false then
    .error (.type "owner process identity must not be empty")
  else if isNonEmpty (some options.callerName) = false ∨ isNonEmpty (some options.originAgent) = false then
    .error (.type "owner caller and origin must not be empty")
  else if options.originSessionId ≠ none ∧ isNonEmpty options.originSessionId = false then
    .error (.type "owner session id must not be empty when provided")
  else if isSafeNonNegativeInteger (some options.nowEpochMs) = false then
    .error (.type "registration time must be a non-negative integer")
  else .ok ()

def executionMatchesObservation : Option ActiveExecutionRecord → Option ActiveExecutionRecord → Bool
  | none, observed => observed.isNone
  | some _, none => false
  | some current, some observed =>
    current.token == observed.token && current.generation == observed.generation && current.pid == observed.pid &&
      current.processIdentity == observed.processIdentity && current.groupId == observed.groupId &&
      current.boundaryKind == observed.boundaryKind && current.ownerToken == observed.ownerToken &&
      current.state == observed.state

def ownerMatchesObservation (current observed : ReconcilerStateRecord) : Bool :=
  current.ownerToken == observed.ownerToken && current.ownerPid == observed.ownerPid &&
    current.ownerProcessIdentity == observed.ownerProcessIdentity &&
    current.runningGeneration == observed.runningGeneration &&
    executionMatchesObservation current.activeExecution observed.activeExecution

/-- The owner columns a registration writes when it becomes owner. -/
def RawStateRow.acquire (row : RawStateRow) (options : RegisterReconciliationOptions) (nextRequested : Int) :
    RawStateRow :=
  { row with
    requestedGeneration := nextRequested
    runningGeneration := some nextRequested
    ownerToken := some options.token
    ownerPid := some options.pid
    ownerBootEpochMs := some options.bootEpochMs
    ownerProcessIdentity := some options.processIdentity
    ownerCallerName := some options.callerName
    ownerOriginAgent := some options.originAgent
    ownerSessionId := options.originSessionId
    heartbeatAtEpochMs := some options.nowEpochMs }

/-- One attempt's transaction, given what the attempt observed before it. -/
def registrationAttempt (options : RegisterReconciliationOptions) (observedState : ReconcilerStateRecord)
    (observedOwnerIsAlive : Bool) (db : Db) : Except ReconcilerError RegisterReconciliationResult × Db :=
  runReconcilerTransaction db fun db => do
    let state ← readReconcilerState db
    if ownerMatchesObservation state observedState = false then throw .ownerChanged
    let nextRequested := state.requestedGeneration + 1
    if observedOwnerIsAlive then
      let (_, db) ← updateState db (fun _ => true) ({ · with requestedGeneration := nextRequested })
      return (.coalesced nextRequested state.ownerPid state.ownerCallerName, db)
    else
      let (_, db) ← updateState db (fun _ => true) (·.acquire options nextRequested)
      return (.owner nextRequested state.completedGeneration state.ownerToken.isSome state.ownerPid
        state.activeExecution.isSome, db)

structure AttemptView where
  observed : Db
  liveness : Liveness
  current : Db

def admissionLoop (options : RegisterReconciliationOptions) :
    List AttemptView → Db → Except ReconcilerError RegisterReconciliationResult × Db
  | [], db => (.error (.fenced ("Reconciler ownership changed repeatedly during admission; " ++
      "retry the invocation.")), db)
  | view :: views, _ =>
    match readReconcilerState view.observed with
    | .error e => (.error e, view.observed)
    | .ok observedState =>
      match registrationAttempt options observedState (ownerIsAlive view.liveness observedState) view.current with
      | (.error .ownerChanged, db) => admissionLoop options views db
      | outcome => outcome

def admissionAttempts : Nat := 8

def registerReconciliationRequest (db : Db) (options : RegisterReconciliationOptions)
    (views : Fin admissionAttempts → AttemptView) : Except ReconcilerError RegisterReconciliationResult × Db :=
  match assertRegistrationOptions options with
  | .error e => (.error e, db)
  | .ok () => admissionLoop options (List.ofFn views) db

/-! ## Passes and ownership -/

structure FinishReconciliationPassOptions where
  token : String
  pid : Int
  generation : Int
  success : Bool
  nowEpochMs : Int
  deriving DecidableEq, Repr

inductive FinishReconciliationResult where
  | continue (generation completedGeneration : Int) (success : Bool)
  | stopSuccess (completedGeneration : Int)
  | stopFailed (completedGeneration : Int)
  deriving DecidableEq, Repr

/-- Every owner column null, with the running generation and the heartbeat. -/
def RawStateRow.clearOwner (row : RawStateRow) : RawStateRow :=
  { row with
    runningGeneration := none
    ownerToken := none
    ownerPid := none
    ownerBootEpochMs := none
    ownerProcessIdentity := none
    ownerCallerName := none
    ownerOriginAgent := none
    ownerSessionId := none
    heartbeatAtEpochMs := none }

def finishReconciliationPass (db : Db) (options : FinishReconciliationPassOptions) :
    Except ReconcilerError FinishReconciliationResult × Db :=
  runReconcilerTransaction db fun db => do
    let state ← readReconcilerState db
    if state.ownerToken ≠ some options.token ∨ state.ownerPid ≠ some options.pid then
      throw (.fenced "The reconciler owner token no longer matches; refusing to finalize another owner's pass.")
    if state.activeExecution ≠ none then
      throw (.fenced "An active execution remains registered; refusing false pass completion.")
    if state.runningGeneration ≠ some options.generation then
      throw (.fenced (s!"running_generation {nullable state.runningGeneration} does not match pass generation " ++
        s!"{options.generation}; refusing to finalize."))
    let completedGeneration := if options.success then options.generation else state.completedGeneration
    if state.requestedGeneration > options.generation then
      let nextRunning := state.requestedGeneration
      let (_, db) ← updateState db (fun _ => true) ({ · with
        completedGeneration := completedGeneration
        runningGeneration := some nextRunning
        heartbeatAtEpochMs := some options.nowEpochMs })
      return (.continue nextRunning completedGeneration options.success, db)
    else
      let (_, db) ← updateState db (fun _ => true)
        (fun row => { row.clearOwner with completedGeneration := completedGeneration })
      return (if options.success then .stopSuccess completedGeneration else .stopFailed completedGeneration, db)

structure HeartbeatOptions where
  token : String
  pid : Int
  nowEpochMs : Int
  deriving DecidableEq, Repr

/-- The heartbeat's UPDATE statement, fenced by its own WHERE clause. -/
def heartbeatUpdate (db : Db) (options : HeartbeatOptions) : Except ReconcilerError (Nat × Db) :=
  updateState db (fun row => row.ownerToken == some options.token && row.ownerPid == some options.pid)
    ({ · with heartbeatAtEpochMs := some options.nowEpochMs })

/-- `observed` is the table read, `db` the table when the UPDATE runs. -/
def heartbeatReconciler (observed db : Db) (options : HeartbeatOptions) : Except ReconcilerError Bool × Db :=
  match readReconcilerState observed with
  | .error e => (.error e, db)
  | .ok state =>
    if state.ownerToken ≠ some options.token ∨ state.ownerPid ≠ some options.pid then (.ok false, db)
    else match heartbeatUpdate db options with
      | .error e => (.error e, db)
      | .ok (changes, db') => (.ok (changes == 1), db')

structure ReleaseOwnershipOptions where
  token : String
  pid : Int
  deriving DecidableEq, Repr

def releaseReconciliationOwnership (db : Db) (options : ReleaseOwnershipOptions) : Except ReconcilerError Bool × Db :=
  runReconcilerTransaction db fun db => do
    let state ← readReconcilerState db
    if state.ownerToken ≠ some options.token ∨ state.ownerPid ≠ some options.pid then return (false, db)
    if state.activeExecution ≠ none then return (false, db)
    let (changes, db) ← updateState db
      (fun row => row.ownerToken == some options.token && row.ownerPid == some options.pid) RawStateRow.clearOwner
    return (changes == 1, db)

/-! ## The active execution -/

structure RegisterActiveExecutionOptions where
  ownerToken : String
  ownerPid : Int
  generation : Int
  executionToken : String
  executionPid : Int
  executionProcessIdentity : String
  executionGroupId : Int
  executionBoundaryKind : String
  deriving DecidableEq, Repr

structure FenceActiveExecutionOptions where
  ownerToken : String
  ownerPid : Int
  executionToken : String
  deriving DecidableEq, Repr

def requireNonEmpty (name value : String) : Except ReconcilerError Unit :=
  if isNonEmpty (some value) then .ok () else .error (.type s!"{name} must not be empty")

def requirePositiveInteger (name : String) (value : Int) : Except ReconcilerError Unit :=
  if isPositiveInteger (some value) then .ok () else .error (.type s!"{name} must be a positive integer")

def assertOwner (state : ReconcilerStateRecord) (ownerToken : String) (ownerPid : Int) : Except ReconcilerError Unit :=
  if state.ownerToken ≠ some ownerToken ∨ state.ownerPid ≠ some ownerPid then
    .error (.fenced "The reconciler owner no longer matches; refusing to mutate active execution state.")
  else .ok ()

def assertExecutionOptions (options : RegisterActiveExecutionOptions) : Except ReconcilerError Unit := do
  requireNonEmpty "owner token" options.ownerToken
  requireNonEmpty "execution token" options.executionToken
  requireNonEmpty "execution process identity" options.executionProcessIdentity
  requirePositiveInteger "owner pid" options.ownerPid
  requirePositiveInteger "execution generation" options.generation
  requirePositiveInteger "execution pid" options.executionPid
  requirePositiveInteger "execution group id" options.executionGroupId
  if options.executionPid ≠ options.executionGroupId then
    throw (.type "execution pid and group id must identify the same POSIX group leader")
  if options.executionBoundaryKind ≠ posixExecutionBoundaryKind then
    throw (.type "unsupported execution boundary kind")

def RawStateRow.register (row : RawStateRow) (options : RegisterActiveExecutionOptions) : RawStateRow :=
  { row with
    executionToken := some options.executionToken
    executionGeneration := some options.generation
    executionPid := some options.executionPid
    executionProcessIdentity := some options.executionProcessIdentity
    executionGroupId := some options.executionGroupId
    executionBoundaryKind := some options.executionBoundaryKind
    executionOwnerToken := some options.ownerToken
    executionState := some ActiveExecutionState.registered.column }

def registerActiveExecution (db : Db) (options : RegisterActiveExecutionOptions) :
    Except ReconcilerError ActiveExecutionRecord × Db :=
  match assertExecutionOptions options with
  | .error e => (.error e, db)
  | .ok () => runReconcilerTransaction db fun db => do
    let state ← readReconcilerState db
    assertOwner state options.ownerToken options.ownerPid
    if state.runningGeneration ≠ some options.generation then
      throw (.fenced (s!"running_generation {nullable state.runningGeneration} does not match execution generation " ++
        s!"{options.generation}"))
    if state.activeExecution ≠ none then
      throw (.fenced "An active execution is already registered; refusing to register a second execution.")
    let (_, db) ← updateState db (fun _ => true) (·.register options)
    let registered ← readReconcilerState db
    match registered.activeExecution with
    | none => throw (.fenced "Active execution registration did not persist.")
    | some execution => return (execution, db)

def authorizeActiveExecutionStart (db : Db) (options : FenceActiveExecutionOptions) : Except ReconcilerError Bool × Db :=
  runReconcilerTransaction db fun db => do
    let state ← readReconcilerState db
    assertOwner state options.ownerToken options.ownerPid
    match state.activeExecution with
    | none => return (false, db)
    | some execution =>
      if execution.token ≠ options.executionToken ∨ execution.ownerToken ≠ options.ownerToken then return (false, db)
      if execution.state ≠ .registered then return (false, db)
      let (changes, db) ← updateState db (fun row => row.executionToken == some options.executionToken)
        ({ · with executionState := some ActiveExecutionState.startAuthorized.column })
      return (changes == 1, db)

def RawStateRow.clearExecution (row : RawStateRow) : RawStateRow :=
  { row with
    executionToken := none
    executionGeneration := none
    executionPid := none
    executionProcessIdentity := none
    executionGroupId := none
    executionBoundaryKind := none
    executionOwnerToken := none
    executionState := none }

def clearActiveExecution (db : Db) (options : FenceActiveExecutionOptions) : Except ReconcilerError Bool × Db :=
  runReconcilerTransaction db fun db => do
    let state ← readReconcilerState db
    assertOwner state options.ownerToken options.ownerPid
    if state.activeExecution.map (·.token) ≠ some options.executionToken then return (false, db)
    let (changes, db) ← updateState db (fun row => row.executionToken == some options.executionToken)
      RawStateRow.clearExecution
    return (changes == 1, db)

end GitCommitsPush.Reconciliation
