/-
  GitCommitsPush.Reconciliation.CutoverPreflight — the gate of the cutover
  (`node-cutover-preflight.ts`, `reconciler-preflight.ts`): the runs Turnlock left, the
  legacy queue and the coordinator's database, read and never written.

  The files stay as they are while they are read, but for the database: what is at its
  path is given at the three moments the inspection looks at it. What processes are alive
  only words the blockers of an owner and of an execution.

  `cutover_ready_iff`: no blocker is reported if and only if the state is settled.
-/

import GitCommitsPush.Reconciliation.HistoricalRuns
import GitCommitsPush.Reconciliation.LegacyQueue

namespace GitCommitsPush.Reconciliation.Cutover

open GitCommitsPush.Lib.Effect
open GitCommitsPush.Lib.Fallible (ite_eq_ok)
open GitCommitsPush.Lib.JsText
open GitCommitsPush.Lib.SharedDirectory

/-! ## The database file -/

inductive FileStat where
  | missing | irregular | regular
  | failed (message : String)
  deriving DecidableEq, Repr

/-- What is at the path of the database at one moment: the sidecars that exist or cannot be
    looked at, the fingerprint, and what SQLite makes of the file, by stages. -/
structure DatabaseSight where
  stat : FileStat
  sidecar : String → Bool
  fingerprint : Except String String
  connection : Except String Unit
  schema : Except String (Int × List String)
  rows : Except String Db

/-- The sight before, during and after the reading. -/
structure DatabaseSights where
  first : DatabaseSight
  opened : DatabaseSight
  last : DatabaseSight

def SQLITE_TRANSIENT_FILE_SUFFIXES : List String := ["-journal", "-shm", "-wal"]

/-- By suffix, in order. -/
def listSqliteTransientFiles (sight : DatabaseSight) : List String := SQLITE_TRANSIENT_FILE_SUFFIXES.filter sight.sidecar

inductive ReadOnlyOpenError where
  | missing (message : String)
  | failed (error : ReconcilerOpenError)
  deriving DecidableEq, Repr

/-- `openReconcilerDb` with `readOnly`. -/
def openReadOnly (dbPath : String) (sight : DatabaseSight) : Except ReadOnlyOpenError Unit :=
  match sight.stat with
  | .failed message => .error (.failed ⟨.corrupt, "Reconciler database cannot be inspected at " ++ dbPath ++ ": " ++
      message ++ "."⟩)
  | .missing => .error (.missing ("Reconciler database does not exist at " ++ dbPath ++
      "; no durable reconciliation state is present."))
  | .irregular => .error (.failed ⟨.corrupt, "Reconciler database path is not a regular file: " ++ dbPath ++ "."⟩)
  | .regular => match sight.connection with
    | .error message => .error (.failed ⟨.corrupt, "Reconciler database cannot be opened at " ++ dbPath ++ ": " ++ message ++
        ". The file is preserved. Inspect it and remove it manually only after confirming no reconciliation is pending."⟩)
    | .ok () => match sight.schema with
      | .error message => .error (.failed ⟨.corrupt, "Reconciler database at " ++ dbPath ++
          " failed schema initialization: " ++ message ++ ". The database is preserved; inspect it manually."⟩)
      | .ok (userVersion, tables) =>
        if userVersion = 0 ∧ tables = [] then .error (.failed ⟨.corrupt, "Reconciler database at " ++ dbPath ++
          " exists but has no initialized schema."⟩)
        else match assertCompatibleSchema dbPath ⟨userVersion, tables, []⟩ with
          | .error error => .error (.failed error)
          | .ok () => .ok ()

/-! ## `reconciler-preflight.ts` -/

/-- The processes as they are seen: the start identity of a live one and the liveness of an
    execution. -/
structure Processes where
  startIdentity : Int → Option String
  liveness : ActiveExecutionRecord → String

def databaseBlocker (kind : BlockerKind) (detail : String) : Blocker := ⟨detail, kind, "reconciler.sqlite"⟩

def uncheckpointedDatabaseBlocker (transientFiles : List String) : Blocker :=
  databaseBlocker .uncheckpointedReconcilerDb (
    if transientFiles ≠ [] then "SQLite transient state is present (" ++
      joinStrings ", " (transientFiles.map ("reconciler.sqlite" ++ ·)) ++ "); refusing a potentially stale immutable read"
    else "reconciler database changed during immutable inspection")

def legacyLockBlockers : LegacyLockClassification → List Blocker
  | .none => []
  | .live => [⟨"legacy queue lock heartbeat is still live", .liveQueueLock, LEGACY_LOCK_FILE_NAME⟩]
  | .stale => [⟨"stale legacy queue lock must be migrated before cutover", .staleQueueLock, LEGACY_LOCK_FILE_NAME⟩]
  | .malformed => [⟨"legacy queue lock is malformed or unreadable", .malformedQueueLock, LEGACY_LOCK_FILE_NAME⟩]

def orderBlocker (artifactPath : String) : Blocker :=
  ⟨"legacy queued order artifact must be migrated before cutover", .pendingOrder, artifactPath⟩

section Preflight

variable (processes : Processes)

def ownerIsExact (state : ReconcilerStateRecord) : Bool :=
  match state.ownerPid with
  | some pid => (processes.startIdentity pid).isSome && processes.startIdentity pid == state.ownerProcessIdentity
  | none => false

def ownerBlockers (state : ReconcilerStateRecord) : List Blocker :=
  if state.ownerToken.isSome = true ∧ state.ownerPid.isSome = true ∧ state.ownerProcessIdentity.isSome = true then
    [databaseBlocker (if ownerIsExact processes state then .activeReconciler else .staleReconciler)
      ("reconciliation owner is " ++ (if ownerIsExact processes state then "live" else "stale or unverifiable") ++
        " (pid " ++ nullable state.ownerPid ++ ", generation " ++ nullable state.runningGeneration ++ ")")]
  else []

def executionBlockers (state : ReconcilerStateRecord) : List Blocker :=
  match state.activeExecution with
  | none => []
  | some execution =>
    let ownedExactly := (state.ownerToken.isSome && state.ownerPid.isSome && state.ownerProcessIdentity.isSome &&
      ownerIsExact processes state)
    [databaseBlocker (if ownedExactly ∧ processes.liveness execution = "alive-exact" then .activeExecution else .orphanExecution)
      ("durable Git execution is " ++ processes.liveness execution ++ " (pid " ++ toString execution.pid ++ ", generation " ++
        toString execution.generation ++ ")")]

def pendingBlockers (state : ReconcilerStateRecord) : List Blocker :=
  if state.ownerToken = none ∧ state.requestedGeneration > state.completedGeneration then
    [databaseBlocker .pendingReconciliation ("reconciliation is pending (requested " ++ toString state.requestedGeneration ++
      " > completed " ++ toString state.completedGeneration ++ ") with no active owner")]
  else []

/-- What is read from an opened database; `error` is the blocker of a failed reading. -/
def inspectOpened (dbPath : String) (sight : DatabaseSight) : Except Blocker (List Blocker) :=
  match openReadOnly dbPath sight with
  | .error (.missing _) => .error (uncheckpointedDatabaseBlocker [])
  | .error (.failed error) => .error (databaseBlocker (
      if error.kind = .incompatibleSchema then .incompatibleReconcilerDb else .corruptReconcilerDb) error.message)
  | .ok () => match sight.rows with
    | .error message => .error (databaseBlocker .corruptReconcilerDb ("reconciler database read failed: " ++ message))
    | .ok rows => match readReconcilerState rows with
      | .error error => .error (databaseBlocker .corruptReconcilerDb error.text)
      | .ok state => .ok (ownerBlockers processes state ++ executionBlockers processes state ++ pendingBlockers state)

/-- The blockers of what is at the database's path. -/
def inspectDatabase (dbPath : String) (sights : DatabaseSights) : List Blocker :=
  let uninspectable (message : String) := databaseBlocker .corruptReconcilerDb
    ("reconciler database cannot be inspected: " ++ message)
  match sights.first.stat with
  | .failed message => [uninspectable message]
  | .missing => []
  | .irregular => [databaseBlocker .corruptReconcilerDb "reconciler database path is not a regular file"]
  | .regular =>
    let transientFilesBefore := listSqliteTransientFiles sights.first
    if transientFilesBefore ≠ [] then [uncheckpointedDatabaseBlocker transientFilesBefore]
    else match sights.first.fingerprint with
      | .error message => [uninspectable message]
      | .ok fingerprintBefore => match inspectOpened processes dbPath sights.opened with
        | .error blocker => [blocker]
        | .ok databaseBlockers =>
          let transientFilesAfter := listSqliteTransientFiles sights.last
          if transientFilesAfter ≠ [] ∨ sights.last.fingerprint.toOption ≠ some fingerprintBefore then
            [uncheckpointedDatabaseBlocker transientFilesAfter]
          else databaseBlockers

variable (runtime : NodeRuntime)

def inspectReconciliationPreflightState (dbPath : String) (stateDirectory : Files) (sights : DatabaseSights)
    (nowEpochMs : Rat) : List Blocker :=
  match ((inspectLegacyQueueState runtime nowEpochMs).run (.alone stateDirectory)).1 with
  | .error error => [⟨"order state directory is unreadable: " ++ error.message, .unreadableOrderState, "order-state"⟩]
  | .ok legacy =>
    legacyLockBlockers legacy.lock ++ legacy.orderArtifactPaths.map orderBlocker ++ inspectDatabase processes dbPath sights

/-! ## `inspectNodeCutoverState` -/

structure CutoverFiles where
  closureLedger : FileText
  runs : RunRoot
  stateDirectory : Files
  database : DatabaseSights

structure PreflightSummary where
  drained : Nat
  explicitlyClosed : Nat
  rejectedIncompatible : Nat
  deriving DecidableEq, Repr

structure PreflightReport where
  blockers : List Blocker
  classifications : List HistoricalRunRecord
  ready : Bool
  summary : PreflightSummary
  version : Nat

variable (libraries : Libraries)

/-- The time is finite. -/
def inspectNodeCutoverState (dbPath : String) (files : CutoverFiles) (nowEpochMs : Rat) : PreflightReport :=
  let historical := inspectHistoricalTurnlockState libraries files.closureLedger files.runs nowEpochMs
  let blockers := historical.blockers ++
    inspectReconciliationPreflightState processes runtime dbPath files.stateDirectory files.database nowEpochMs
  let count (classification : RunClassification) :=
    (historical.classifications.filter (·.classification == classification)).length
  { blockers
    classifications := historical.classifications
    ready := blockers.length == 0
    summary := ⟨count .drained, count .explicitlyClosed, count .rejectedIncompatible⟩
    version := 1 }

end Preflight

/-! ## A settled state -/

/-- A valid row with no owner, no execution and nothing left to do. -/
def RowSettled (rows : Db) : Prop :=
  ∃ state, readReconcilerState rows = .ok state ∧ state.ownerToken = none ∧ state.activeExecution = none ∧
    state.requestedGeneration = state.completedGeneration

/-- A regular file without sidecars, the same before and after, of the schema of this
    version and with a settled row. -/
structure DatabaseSettled (dbPath : String) (sights : DatabaseSights) : Prop where
  regular : sights.first.stat = .regular
  checkpointed : ∀ suffix ∈ SQLITE_TRANSIENT_FILE_SUFFIXES, sights.first.sidecar suffix = false ∧
    sights.last.sidecar suffix = false
  stable : ∃ fingerprint, sights.first.fingerprint = .ok fingerprint ∧ sights.last.fingerprint = .ok fingerprint
  readable : openReadOnly dbPath sights.opened = .ok ()
  row : ∃ rows, sights.opened.rows = .ok rows ∧ RowSettled rows

/-- What the gate asks for. -/
structure CutoverSettled (libraries : Libraries) (dbPath : String) (files : CutoverFiles) : Prop where
  runs : ∃ closures entries, LedgerHolds libraries files.closureLedger closures ∧ files.runs.listed = some entries ∧
    ∀ entry ∈ entries, RunClear libraries closures entry
  queue : Cleared files.stateDirectory
  database : files.database.first.stat = .missing ∨ DatabaseSettled dbPath files.database

/-! ## The database -/

/-- What the reader's checks make of the row, for the columns the gate looks at. -/
theorem readReconcilerState_owner {db : Db} {state : ReconcilerStateRecord} (h : readReconcilerState db = .ok state) :
    state.completedGeneration ≤ state.requestedGeneration ∧
      (state.ownerToken.isSome = state.ownerPid.isSome ∧ state.ownerToken.isSome = state.ownerProcessIdentity.isSome) := by
  unfold readReconcilerState at h
  split at h
  · rename_i row
    simp only [ite_eq_ok, reduceCtorEq, and_false, false_or] at h
    obtain ⟨_, _, _, hle, howner, _, _, _, _, hread⟩ := h
    simp only [ownerFieldsPresent, List.any_cons, List.any_nil, Bool.or_false, Bool.or_eq_true, bne_iff_ne, ne_eq,
      not_or, not_not] at howner
    obtain ⟨htoken, hpid, _, hidentity, _⟩ := howner
    split at hread
    · cases hread
    · cases hread
      exact ⟨by dsimp only; omega, htoken.trans hpid.symm, htoken.trans hidentity.symm⟩
  · cases h

section Database

variable {processes : Processes} {dbPath : String}

theorem stateBlockers_clear {state : ReconcilerStateRecord} {db : Db} (h : readReconcilerState db = .ok state) :
    ownerBlockers processes state ++ executionBlockers processes state ++ pendingBlockers state = [] ↔
      state.ownerToken = none ∧ state.activeExecution = none ∧
        state.requestedGeneration = state.completedGeneration := by
  obtain ⟨hle, hpid, hidentity⟩ := readReconcilerState_owner h
  have howner : ownerBlockers processes state = [] ↔ state.ownerToken = none := by
    unfold ownerBlockers
    rw [← hpid, ← hidentity]
    cases state.ownerToken <;> simp
  have hexecution : executionBlockers processes state = [] ↔ state.activeExecution = none := by
    unfold executionBlockers
    cases state.activeExecution <;> simp
  rw [List.append_eq_nil_iff, List.append_eq_nil_iff, howner, hexecution, and_assoc]
  refine and_congr_right fun hnone => and_congr_right fun _ => ?_
  unfold pendingBlockers
  by_cases hpending : state.requestedGeneration > state.completedGeneration
  · simp only [hnone, hpending, and_self, if_true, reduceCtorEq, false_iff]
    omega
  · simp only [hpending, and_false, if_false, true_iff]
    omega

theorem inspectOpened_clear {sight : DatabaseSight} :
    inspectOpened processes dbPath sight = .ok [] ↔
      openReadOnly dbPath sight = .ok () ∧ ∃ rows, sight.rows = .ok rows ∧ RowSettled rows := by
  unfold inspectOpened
  cases hopen : openReadOnly dbPath sight with
  | error error => cases error <;> simp
  | ok u =>
    cases u
    cases hrows : sight.rows with
    | error message => simp
    | ok rows =>
      cases hstate : readReconcilerState rows with
      | error error => simp [RowSettled, hstate]
      | ok state =>
        have hclear := @stateBlockers_clear processes state rows hstate
        simp [RowSettled, hstate, ← hclear]

theorem listSqliteTransientFiles_nil {sight : DatabaseSight} :
    listSqliteTransientFiles sight = [] ↔ ∀ suffix ∈ SQLITE_TRANSIENT_FILE_SUFFIXES, sight.sidecar suffix = false := by
  unfold listSqliteTransientFiles
  rw [List.filter_eq_nil_iff]
  simp only [Bool.not_eq_true]

theorem inspectDatabase_clear {sights : DatabaseSights} :
    inspectDatabase processes dbPath sights = [] ↔
      sights.first.stat = .missing ∨ DatabaseSettled dbPath sights := by
  unfold inspectDatabase
  have hnot : sights.first.stat ≠ .regular → ¬ DatabaseSettled dbPath sights := fun h hs => h hs.regular
  cases hstat : sights.first.stat with
  | missing => simp
  | irregular => simpa using hnot (by simp [hstat])
  | failed message => simpa using hnot (by simp [hstat])
  | regular =>
    by_cases hbefore : listSqliteTransientFiles sights.first = []
    · cases hfirst : sights.first.fingerprint with
      | error message =>
        have hunstable : ¬ DatabaseSettled dbPath sights := by
          rintro ⟨_, _, ⟨fingerprint, h, _⟩, _, _⟩
          rw [hfirst] at h
          cases h
        simp [hbefore, hunstable]
      | ok fingerprintBefore =>
        have hsettled : DatabaseSettled dbPath sights ↔
            (listSqliteTransientFiles sights.last = [] ∧ sights.last.fingerprint.toOption = some fingerprintBefore) ∧
              inspectOpened processes dbPath sights.opened = .ok [] := by
          rw [inspectOpened_clear, listSqliteTransientFiles_nil]
          rw [listSqliteTransientFiles_nil] at hbefore
          constructor
          · rintro ⟨_, hcheckpointed, ⟨fingerprint, hf, hl⟩, hopen, hrow⟩
            rw [hfirst] at hf
            cases hf
            exact ⟨⟨fun suffix hmem => (hcheckpointed suffix hmem).2, by rw [hl]; rfl⟩, hopen, hrow⟩
          · rintro ⟨⟨hafter, hlast⟩, hopen, hrow⟩
            refine ⟨hstat, fun suffix hmem => ⟨hbefore suffix hmem, hafter suffix hmem⟩, ⟨_, hfirst, ?_⟩, hopen, hrow⟩
            cases hl : sights.last.fingerprint with
            | error message => simp [hl, Except.toOption] at hlast
            | ok fingerprint =>
              rw [hl] at hlast
              exact congrArg _ (Option.some.inj hlast)
        rw [hsettled]
        cases hopened : inspectOpened processes dbPath sights.opened with
        | error blocker => simp [hbefore]
        | ok blockers =>
          by_cases hstable : listSqliteTransientFiles sights.last = [] ∧
              sights.last.fingerprint.toOption = some fingerprintBefore
          · simp [hbefore, hstable]
          · have hunstable : listSqliteTransientFiles sights.last ≠ [] ∨
                sights.last.fingerprint.toOption ≠ some fingerprintBefore := by
              rw [not_and_or] at hstable
              exact hstable
            simp only [ne_eq, hbefore, not_true_eq_false, if_false, reduceCtorEq, false_or, hstable, false_and,
              iff_false]
            rw [if_pos hunstable]
            exact List.cons_ne_nil _ _
    · have hunsettled : ¬ DatabaseSettled dbPath sights := by
        intro h
        exact hbefore (listSqliteTransientFiles_nil.mpr fun suffix hmem => (h.checkpointed suffix hmem).1)
      simp [hbefore, hunsettled]

end Database

/-! ## The gate -/

section Gate

variable (processes : Processes) (runtime : NodeRuntime) (libraries : Libraries)

theorem inspectReconciliationPreflightState_clear (dbPath : String) (stateDirectory : Files) (sights : DatabaseSights)
    (nowEpochMs : Rat) :
    inspectReconciliationPreflightState processes runtime dbPath stateDirectory sights nowEpochMs = [] ↔
      Cleared stateDirectory ∧ (sights.first.stat = .missing ∨ DatabaseSettled dbPath sights) := by
  rw [← @inspectDatabase_clear processes]
  unfold inspectReconciliationPreflightState
  constructor
  · intro h
    cases hrun : ((inspectLegacyQueueState runtime nowEpochMs).run (.alone stateDirectory)).1 with
    | error error => simp [hrun] at h
    | ok legacy =>
      simp only [hrun, List.append_eq_nil_iff, List.map_eq_nil_iff] at h
      obtain ⟨⟨hlock, horders⟩, hdatabase⟩ := h
      have hnone : legacy.lock = .none := by
        cases hl : legacy.lock with
        | none => rfl
        | live => simp [legacyLockBlockers, hl] at hlock
        | stale => simp [legacyLockBlockers, hl] at hlock
        | malformed => simp [legacyLockBlockers, hl] at hlock
      exact ⟨cleared_of_inspection runtime hrun hnone horders, hdatabase⟩
  · rintro ⟨hcleared, hdatabase⟩
    rw [inspection_of_cleared runtime hcleared]
    simp [legacyLockBlockers, hdatabase]

/-- The gate is open exactly on a settled state, whatever the files hold. -/
theorem cutover_ready_iff (dbPath : String) (files : CutoverFiles) (nowEpochMs : Rat) :
    (inspectNodeCutoverState processes runtime libraries dbPath files nowEpochMs).ready = true ↔
      CutoverSettled libraries dbPath files := by
  have hready : (inspectNodeCutoverState processes runtime libraries dbPath files nowEpochMs).ready = true ↔
      (inspectHistoricalTurnlockState libraries files.closureLedger files.runs nowEpochMs).blockers = [] ∧
        inspectReconciliationPreflightState processes runtime dbPath files.stateDirectory files.database nowEpochMs = [] := by
    simp [inspectNodeCutoverState]
  rw [hready, inspectHistoricalTurnlockState_clear, inspectReconciliationPreflightState_clear]
  exact ⟨fun ⟨hruns, hqueue, hdatabase⟩ => ⟨hruns, hqueue, hdatabase⟩, fun h => ⟨h.runs, h.queue, h.database⟩⟩

end Gate

end GitCommitsPush.Reconciliation.Cutover
