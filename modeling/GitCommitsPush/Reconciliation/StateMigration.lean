/-
  GitCommitsPush.Reconciliation.StateMigration — the move of the default state out of the retired
  skill directory (`scripts/state-migration.mjs`, run by `migrate-state.mjs`), in the company of
  any number of launchers and of other migrations.

  A state root is a directory with what `orders` holds of the coordinator. The lock directory is
  the launchers' own (`state-cutover-lock.ts`); an invocation sees the target's database through
  `System.admission` and moves as it does in `Reconciliation.Admissions`. `MigrationPc` names the
  point a migration is suspended at, with `MigrationView` for what SQLite, the file system and the
  preflight answer it there. A launcher or a migration that crashes takes no further step and
  leaves the lock behind.

  A launcher's mkdir of the state directory is one step with its opening of the database; the
  preflight of a migrated root is told what it sees of the database's file.
-/

import GitCommitsPush.Reconciliation.Admissions
import GitCommitsPush.Reconciliation.CutoverPreflight

namespace GitCommitsPush.Reconciliation.StateMigration

open GitCommitsPush.Lib.Fallible
open GitCommitsPush.Lib.JsText
open GitCommitsPush.Lib.Runs
open GitCommitsPush.Lib.SharedDirectory (Files)
open GitCommitsPush.Reconciliation.Cutover

/-! ## State roots -/

structure DatabaseFile where
  /-- A regular file that is not empty. -/
  regular : Bool
  database : Database
  deriving DecidableEq, Repr

structure OrdersDirectory where
  /-- What a launcher's `inspectLegacyQueueState` answers there. -/
  legacyQueue : Except String LegacyLockClassification
  databaseFile : Option DatabaseFile
  deriving DecidableEq

structure StateTree where
  /-- `lstat` finds a directory and no symbolic link. -/
  physical : Bool
  orders : Option OrdersDirectory
  /-- The names beside `orders`. -/
  others : List String
  deriving DecidableEq

namespace StateTree

def legacyQueue (tree : StateTree) : Except String LegacyLockClassification :=
  match tree.orders with
  | some orders => orders.legacyQueue
  | none => .ok .none

def databaseFile (tree : StateTree) : Option DatabaseFile := tree.orders.bind (·.databaseFile)

/-- The database SQLite opens there. -/
def database (tree : StateTree) : Database :=
  match tree.databaseFile with
  | some file => file.database
  | none => .empty

/-- The tree after a launcher opened or wrote the database. -/
def withDatabase (tree : StateTree) (database : Database) : StateTree :=
  let regular := match tree.databaseFile with
    | some file => file.regular
    | none => true
  { tree with orders := some ⟨tree.legacyQueue, some ⟨regular, database⟩⟩ }

/-- The root a recursive mkdir of its `orders` makes. -/
def made : StateTree := ⟨true, none, []⟩

/-- `readdirSync(targetRoot).sort()`. -/
def names (tree : StateTree) : List String :=
  ((if tree.orders.isSome then ["orders"] else []) ++ tree.others).mergeSort unitsLe

end StateTree

/-! ## The checks of a migration -/

structure RenameError where
  code : Option String
  message : String
  deriving DecidableEq, Repr

/-- What a migration is answered at one step. -/
structure MigrationView where
  /-- The legacy database through the immutable connection, which reads the main file and no sidecar. -/
  mainFile : DatabaseSight
  /-- SQLite opens the legacy database. -/
  connection : Except String Unit
  /-- The `busy` column of the checkpoint's row. -/
  busy : Option Int
  /-- The suffixes of the sidecars left after the checkpoint. -/
  transientFiles : List String
  rename : Except RenameError Unit
  processes : Processes
  stateDirectory : Files
  sights : DatabaseSights
  nowEpochMs : Rat
  restore : Except String Unit
  listing : Except String Unit
  /-- The `rmdir` of the lock went through. -/
  removed : Bool

def requireStateDirectory (directoryPath : String) (root : Option StateTree) (label : String) : Except String Unit :=
  if startsWith directoryPath "/" = false then .error (label ++ " must be an absolute path.")
  else match root with
    | none => .ok ()
    | some tree => if tree.physical = true then .ok ()
        else .error (label ++ " must be a physical directory: " ++ directoryPath)

def assertIdleReconcilerState (rows : Db) : Except String Unit :=
  match readReconcilerState rows with
  | .error error => .error error.text
  | .ok state =>
    if state.ownerToken ≠ none ∨ state.ownerPid ≠ none then
      .error ("Cannot migrate state while reconciler owner pid " ++ nullable state.ownerPid ++ " is recorded.")
    else if state.requestedGeneration ≠ state.completedGeneration then
      .error ("Cannot migrate pending reconciliation generations " ++ toString state.completedGeneration ++ "/" ++
        toString state.requestedGeneration ++ ".")
    else .ok ()

def openErrorMessage : ReadOnlyOpenError → String
  | .missing message => message
  | .failed error => error.message

/-- `openReconcilerDb` for writing, on a database that was just opened for reading. -/
def openInitialized (dbPath : String) (connection : Except String Unit) (database : Database) : Except String Unit :=
  match connection with
  | .error message => .error ("Reconciler database cannot be opened at " ++ dbPath ++ ": " ++ message ++
      ". The file is preserved. Inspect it and remove it manually only after confirming no reconciliation is pending.")
  | .ok () => match assertCompatibleSchema dbPath database with
    | .error error => .error error.message
    | .ok () => .ok ()

/-- The reading before the checkpoint. -/
def verifyIdle (dbPath : String) (mainFile : DatabaseSight) : Except String Unit :=
  match openReadOnly dbPath mainFile with
  | .error error => .error (openErrorMessage error)
  | .ok () => match mainFile.rows with
    | .error message => .error message
    | .ok rows => assertIdleReconcilerState rows

def checkpointFile (dbPath : String) (file : DatabaseFile) (view : MigrationView) : Except String Unit := do
  if file.regular = false then
    throw ("Cannot migrate an uninitialized or non-regular reconciler database: " ++ dbPath)
  verifyIdle dbPath view.mainFile
  openInitialized dbPath view.connection file.database
  assertIdleReconcilerState file.database.rows
  if view.busy ≠ some 0 then throw "SQLite refused to checkpoint reconciler state."
  if view.transientFiles ≠ [] then
    throw ("SQLite transient files remain after checkpoint: " ++
      joinStrings ", " (view.transientFiles.map ("reconciler.sqlite" ++ ·)) ++ ".")

def checkpointReconcilerDatabase (dbPath : String) (tree : StateTree) (view : MigrationView) : Except String Unit :=
  match tree.databaseFile with
  | none => .ok ()
  | some file => checkpointFile dbPath file view

def blockerKindText : BlockerKind → String
  | .activeTurnlockLock => "active-turnlock-lock"
  | .incompatibleRun => "incompatible-run"
  | .invalidClosureLedger => "invalid-closure-ledger"
  | .malformedTurnlockLock => "malformed-turnlock-lock"
  | .staleTurnlockLock => "stale-turnlock-lock"
  | .unreadableRunRoot => "unreadable-run-root"
  | .unexpectedRunEntry => "unexpected-run-entry"
  | .liveQueueLock => "live-queue-lock"
  | .staleQueueLock => "stale-queue-lock"
  | .malformedQueueLock => "malformed-queue-lock"
  | .pendingOrder => "pending-order"
  | .unreadableOrderState => "unreadable-order-state"
  | .activeReconciler => "active-reconciler"
  | .staleReconciler => "stale-reconciler"
  | .activeExecution => "active-execution"
  | .orphanExecution => "orphan-execution"
  | .pendingReconciliation => "pending-reconciliation"
  | .uncheckpointedReconcilerDb => "uncheckpointed-reconciler-db"
  | .corruptReconcilerDb => "corrupt-reconciler-db"
  | .incompatibleReconcilerDb => "incompatible-reconciler-db"

def validateMigratedState (runtime : NodeRuntime) (dbPath : String) (tree : StateTree) (view : MigrationView) :
    Except String Unit :=
  if tree.orders.isNone then .ok ()
  else
    let blockers := inspectReconciliationPreflightState view.processes runtime dbPath view.stateDirectory view.sights view.nowEpochMs
    if blockers ≠ [] then
      .error ("Migrated reconciler state failed preflight: " ++
        joinStrings "; " (blockers.map fun blocker => blockerKindText blocker.kind ++ ": " ++ blocker.detail))
    else .ok ()

/-! ## A migration -/

inductive MigrationOutcome where
  | migrated (entries : List String)
  | alreadyMigrated
  | absent
  deriving DecidableEq, Repr

abbrev MigrationResult := Except String MigrationOutcome

inductive MigrationPc where
  | acquiring
  /-- The checks before anything is touched. -/
  | classifying
  | checkpointing
  | moving
  | validating
  /-- The rename back, after a failed validation. -/
  | restoring (error : String)
  | listing
  /-- The head of the `finally` block. -/
  | finalizing (rollbackRequired : Bool) (result : MigrationResult)
  | releasing (result : MigrationResult)
  | returned (result : MigrationResult)
  deriving DecidableEq

structure System where
  /-- The lock directory exists. -/
  lock : Bool
  source : Option StateTree
  target : Option StateTree
  /-- Ghost: the tokens of the launchers that have owned the row. -/
  owners : List String
  invocations : String → Option Invocation
  migrations : List MigrationPc

namespace System

/-- What the launchers see. -/
def admission (s : System) : AdmissionSys where
  files :=
    { stateCutoverLock := s.lock
      legacyState := s.source.map fun tree => if tree.physical then .directory else .filesystemEntry
      legacyQueue := match s.target with
        | some tree => tree.legacyQueue
        | none => .ok .none
      database := match s.target with
        | some tree => tree.database
        | none => .empty }
  owners := s.owners
  invocations := s.invocations

/-- A launcher's step, taken back; `opens` when it had the database open. -/
def launched (s : System) (a : AdmissionSys) (opens : Bool) : System :=
  { s with
    lock := a.files.stateCutoverLock
    target := if opens = true then some ((s.target.getD .made).withDatabase a.files.database) else s.target
    owners := a.owners
    invocations := a.invocations }

def goto (s : System) (k : Nat) (pc : MigrationPc) : System := { s with migrations := s.migrations.set k pc }

end System

/-- The database is open during the step. -/
def opensDatabase : AdmissionPc → Bool
  | .opening | .initializing | .deciding .. => true
  | _ => false

def sourceRoot (home : StateHome) : String := resolveLegacyApplicationStateDirectory home.homeDirectory

/-- The database of the legacy root. -/
def sourceDbPath (home : StateHome) : String := GitCommitsPush.Lib.PosixPath.normalize (sourceRoot home ++ "/orders/reconciler.sqlite")

/-- What the two roots call for: an outcome, or a move of this tree. -/
def classify (home : StateHome) (source target : Option StateTree) : Except String (MigrationOutcome ⊕ StateTree) := do
  requireStateDirectory (sourceRoot home) source "Legacy state root"
  requireStateDirectory home.applicationStateDirectory target "Target state root"
  match source with
  | none => return .inl (if target.isSome then .alreadyMigrated else .absent)
  | some tree =>
    if target.isSome then
      throw ("Legacy and target state roots both exist; refusing divergent state: " ++ sourceRoot home ++ " and " ++
        home.applicationStateDirectory)
    return .inr tree

def renameFailure (error : RenameError) : String :=
  if error.code = some "EXDEV" then "State migration requires source and target to be on the same filesystem."
  else error.message

/-- One step of migration `k`. -/
def migrate (runtime : NodeRuntime) (home : StateHome) (view : MigrationView) (s : System) (k : Nat) : MigrationPc → System
  | .acquiring =>
    if startsWith (sourceRoot home) "/" = false then
      s.goto k (.returned (.error "Legacy state root must be an absolute path."))
    else match acquireStateCutoverLock home.applicationStateDirectory s.lock with
      | .error message => s.goto k (.returned (.error message))
      | .ok lockExists => { s with lock := lockExists }.goto k .classifying
  | .classifying => match classify home s.source s.target with
    | .error message => s.goto k (.finalizing false (.error message))
    | .ok (.inl outcome) => s.goto k (.finalizing false (.ok outcome))
    | .ok (.inr _) => s.goto k .checkpointing
  | .checkpointing => match checkpointReconcilerDatabase (sourceDbPath home) (s.source.getD .made) view with
    | .error message => s.goto k (.finalizing false (.error message))
    | .ok () => s.goto k .moving
  | .moving => match view.rename with
    | .error error => s.goto k (.finalizing false (.error (renameFailure error)))
    | .ok () => { s with source := none, target := s.source }.goto k .validating
  | .validating =>
    match validateMigratedState runtime (resolveReconcilerDbPath home) (s.target.getD .made) view with
    | .error message => s.goto k (.restoring message)
    | .ok () => s.goto k .listing
  | .restoring message => match view.restore with
    | .error error => s.goto k (.finalizing true (.error error))
    | .ok () => { s with source := s.target, target := none }.goto k (.finalizing false (.error message))
  | .listing => match view.listing with
    | .error error => s.goto k (.finalizing false (.error error))
    | .ok () => s.goto k (.finalizing false (.ok (.migrated (s.target.getD .made).names)))
  | .finalizing rollbackRequired result =>
    if rollbackRequired = true ∧ s.target.isSome = true ∧ s.source.isNone = true ∧ view.restore = .ok () then
      { s with source := s.target, target := none }.goto k (.releasing result)
    else s.goto k (.releasing result)
  | .releasing result => { s with lock := if view.removed = true then false else s.lock }.goto k (.returned result)
  | .returned _ => s

/-! ## The machine -/

inductive Event where
  | start (options : RegisterReconciliationOptions)
  | advance (token : String) (liveness : Liveness)
  /-- A later coordinator call of some registered launcher. -/
  | serve (call : Call)
  /-- Another run of the migration script. -/
  | rerun
  | migrate (k : Nat) (view : MigrationView)

/-- A launcher was answered OWNER or COALESCED. -/
def registered (s : System) : Prop :=
  ∃ token i result, s.invocations token = some i ∧ i.pc.answer = some (.ok result)

inductive MigrationStep (runtime : NodeRuntime) (home : StateHome) (s : System) : Event → System → Prop
  | start (options : RegisterReconciliationOptions) (valid : assertRegistrationOptions options = .ok ()) :
      options.token ∉ s.owners → s.invocations options.token = none →
      MigrationStep runtime home s (.start options)
        { s with invocations := Function.update s.invocations options.token (some ⟨options, valid, .acquiring⟩) }
  /-- A registration finds room in the request counter. -/
  | advance (token : String) (liveness : Liveness) (i : Invocation) : s.invocations token = some i →
      (∀ attempt observed alive, i.pc = .deciding attempt observed alive →
        ∀ row ∈ s.admission.rows, row.requestedGeneration < maxSafeInteger) →
      MigrationStep runtime home s (.advance token liveness)
        (s.launched (Reconciliation.advance home liveness s.admission i) (opensDatabase i.pc))
  | serve (call : Call) : registered s → call.registration? = none → call.Admissible s.owners s.admission.rows →
      MigrationStep runtime home s (.serve call) (s.launched (s.admission.commit call) true)
  | rerun : MigrationStep runtime home s .rerun { s with migrations := s.migrations ++ [.acquiring] }
  | migrate (k : Nat) (view : MigrationView) (pc : MigrationPc) : s.migrations[k]? = some pc →
      MigrationStep runtime home s (.migrate k view) (StateMigration.migrate runtime home view s k pc)

/-- The tokens a readable database records are of launchers that have owned it. -/
def Recorded (owners : List String) (root : Option StateTree) : Prop :=
  ∀ tree state, root = some tree → readReconcilerState tree.database.rows = .ok state → Shared.Good ⟨owners, tree.database.rows⟩

/-- The target's database counts the generation this launcher was answered. -/
def Counted (s : System) (result : RegisterReconciliationResult) : Prop :=
  s.source = none ∧ ∃ row, s.admission.rows = [row] ∧ result.generation ≤ row.requestedGeneration

/-- One root at most, a free lock, and no launcher but those answered before. -/
def migrationMachine (runtime : NodeRuntime) (home : StateHome) : Machine System Event where
  init s := s.lock = false ∧ (s.source = none ∨ s.target = none) ∧ Recorded s.owners s.source ∧ Recorded s.owners s.target ∧
    s.migrations = [] ∧ ∀ token i, s.invocations token = some i → i.options.token = token ∧
      ∃ result, i.pc = .returned (.ok result) ∧ Counted s result ∧ Opened s.owners s.admission.files.database
  step := MigrationStep runtime home

end GitCommitsPush.Reconciliation.StateMigration
