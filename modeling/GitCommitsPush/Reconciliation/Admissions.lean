/-
  GitCommitsPush.Reconciliation.Admissions — any number of public launchers going
  through admission at once (`public-launcher.ts` up to its registration's answer, with
  `state-cutover-lock.ts`, `legacy-state-cutover.ts` and `openReconcilerDb`), in the
  default configuration, where each takes the `.migration-lock` directory first.

  `AdmissionPc` names the point an invocation is suspended at; `advance` is what it does
  next, every refusal with the text it writes. What is on disk and how the liveness
  reads answer are given. A registered launcher's later coordinator calls (`serve`) may
  come between any two steps; nobody crashes.

  The lock's mkdir fails when the directory exists, and the launcher then gives up:
  - `concurrent_admission_refused`: the second of two launchers is refused because the
    first has not released the lock.
  - `admissions_answered`: as long as nobody takes the lock while another holds it, no
    eighth attempt is overtaken and the counter has room, every invocation is answered
    OWNER or COALESCED, and is after `admissionSteps` steps of its own.
-/

import Mathlib.Logic.Function.Basic
import GitCommitsPush.Lib.PosixPath
import GitCommitsPush.Reconciliation.Fencing

namespace GitCommitsPush.Reconciliation

open GitCommitsPush.Lib.Fallible
open GitCommitsPush.Lib.JsText
open GitCommitsPush.Lib.Runs
open GitCommitsPush.Lib.PosixPath (normalize)

/-! ## The state on disk -/

/-- The directories `resolveApplicationStateDirectory` and `os.homedir` give. -/
structure StateHome where
  homeDirectory : String
  applicationStateDirectory : String
  absolute : startsWith applicationStateDirectory "/" = true

inductive LegacyLockClassification where
  | none
  | live
  | stale
  | malformed
  deriving DecidableEq, Repr

/-- What `lstat` makes of an existing legacy state root. -/
inductive LegacyStateKind where
  | filesystemEntry
  | directory
  | unreadable
  deriving DecidableEq, Repr

def LegacyStateKind.text : LegacyStateKind → String
  | .filesystemEntry => "filesystem entry"
  | .directory => "directory"
  | .unreadable => "unreadable filesystem entry"

/-- The SQLite file: one that does not exist yet opens with version 0 and no table. -/
structure Database where
  userVersion : Int
  tables : List String
  rows : Db
  deriving DecidableEq, Repr

def Database.empty : Database := ⟨0, [], []⟩

structure StateFiles where
  /-- The lock directory exists. -/
  stateCutoverLock : Bool
  legacyState : Option LegacyStateKind
  /-- What `inspectLegacyQueueState` answers or throws. -/
  legacyQueue : Except String LegacyLockClassification
  database : Database

def stateCutoverLockSuffix : String := ".migration-lock"

def resolveStateCutoverLockPath (applicationStateDirectory : String) : Except String String :=
  if startsWith applicationStateDirectory "/" = false then
    .error "Application state directory must be an absolute path."
  else .ok (normalize applicationStateDirectory ++ stateCutoverLockSuffix)

/-- The `mkdir` of the lock, on the entry found there; the result is the entry left. -/
def acquireStateCutoverLock (applicationStateDirectory : String) (lockExists : Bool) : Except String Bool := do
  let lockPath ← resolveStateCutoverLockPath applicationStateDirectory
  if lockExists then throw ("State migration lock is already held: " ++ lockPath)
  return true

def resolveLegacyApplicationStateDirectory (homeDirectory : String) : String :=
  normalize (homeDirectory ++ "/.agents/skills/git-commits-push/.state")

def assertLegacyApplicationStateMigrated (home : StateHome) (files : StateFiles) : Except String Unit :=
  match files.legacyState with
  | none => .ok ()
  | some stateKind => .error ("legacy application state " ++ stateKind.text ++ " still exists at " ++
      resolveLegacyApplicationStateDirectory home.homeDirectory ++
      "; run the state migration from the dedicated git-commits-push repository before launch")

/-! ## Opening the database -/

inductive ReconcilerOpenErrorKind where
  | corrupt
  | incompatibleSchema
  deriving DecidableEq, Repr

structure ReconcilerOpenError where
  kind : ReconcilerOpenErrorKind
  message : String
  deriving DecidableEq, Repr

def reconcilerSchemaVersion : Int := 3

def reconcilerStateTable : String := "reconciler_state"

def resolveReconcilerDbPath (home : StateHome) : String :=
  normalize (home.applicationStateDirectory ++ "/orders/reconciler.sqlite")

def migrationDetail (userVersion : Int) : String :=
  if userVersion = 2 then " Schema version 2 has no durable active-execution identity and cannot be reinterpreted " ++
    "safely. Perform the documented offline migration only after proving that no old execution tree survives."
  else ""

def assertCompatibleSchema (dbPath : String) (db : Database) : Except ReconcilerOpenError Unit :=
  if db.userVersion ≠ reconcilerSchemaVersion then
    .error ⟨.incompatibleSchema, "Reconciler database at " ++ dbPath ++ " declares schema version " ++
      toString db.userVersion ++ ", but this runtime only supports version " ++ toString reconcilerSchemaVersion ++ "." ++
      migrationDetail db.userVersion ++
      " Refusing to start Git mutations while coordinator state cannot be trusted."⟩
  else if db.tables.contains reconcilerStateTable = false then
    .error ⟨.corrupt, "Reconciler database at " ++ dbPath ++ " declares schema version " ++
      toString reconcilerSchemaVersion ++
      " but the reconciler_state table is missing. The database is preserved; inspect it manually."⟩
  else .ok ()

def Database.uninitialized (db : Database) : Bool := db.userVersion == 0 && db.tables.isEmpty

/-- The schema transaction, which looks again. -/
def initializeSchema (dbPath : String) (db : Database) : Except ReconcilerOpenError Database := do
  if db.uninitialized then return ⟨reconcilerSchemaVersion, [reconcilerStateTable], initialDb⟩
  assertCompatibleSchema dbPath db
  return db

/-! ## Invocations -/

/-- What the launcher writes to standard error before it exits with 2. -/
def failClosed (message : String) : String := "git-commits-push: " ++ message ++ "\n"

def liveLegacyWorkerMessage : String :=
  "git-commits-push: a legacy queue worker (running.lock) appears active.\n" ++
    "Refusing to start a competing reconciler. Wait for the legacy worker to finish, then run again;\n" ++
    "or remove the lock manually after confirming that no legacy worker is running.\n"

def malformedLegacyLockMessage : String :=
  "git-commits-push: legacy queue lock (running.lock) is malformed or unreadable.\n" ++
    "Refusing reconciliation because legacy worker liveness cannot be established.\n" ++
    "Preserve and inspect the lock before removing it manually.\n"

/-- `errorMessage` of a coordinator error. -/
def ReconcilerError.text : ReconcilerError → String
  | .invariant message | .fenced message | .type message | .sqlite message => message
  | .ownerChanged => ""

def registrationFailure (error : ReconcilerError) : String :=
  failClosed ("reconciliation admission failed: " ++ error.text)

/-- An OWNER or COALESCED result, or the text of a refusal. -/
abbrev Answer := Except String RegisterReconciliationResult

inductive AdmissionPc where
  | acquiring
  | inspecting
  | opening
  | initializing
  /-- The top of the registration loop. -/
  | observing (attempt : Nat)
  | deciding (attempt : Nat) (observed : ReconcilerStateRecord) (observedOwnerIsAlive : Bool)
  | releasing (answer : Answer)
  | returned (answer : Answer)
  deriving DecidableEq

structure Invocation where
  options : RegisterReconciliationOptions
  valid : assertRegistrationOptions options = .ok ()
  pc : AdmissionPc

structure AdmissionSys where
  files : StateFiles
  /-- Ghost: the tokens of the launchers that have owned the row. -/
  owners : List String
  invocations : String → Option Invocation

namespace AdmissionSys

def rows (s : AdmissionSys) : Db := s.files.database.rows

def shared (s : AdmissionSys) : Shared := ⟨s.owners, s.rows⟩

def goto (s : AdmissionSys) (i : Invocation) (pc : AdmissionPc) : AdmissionSys :=
  { s with invocations := Function.update s.invocations i.options.token (some { i with pc }) }

def withLock (s : AdmissionSys) (lockExists : Bool) : AdmissionSys :=
  { s with files := { s.files with stateCutoverLock := lockExists } }

def withDatabase (s : AdmissionSys) (database : Database) : AdmissionSys :=
  { s with files := { s.files with database } }

/-- The call's commit, with its new owner. -/
def commit (s : AdmissionSys) (call : Call) : AdmissionSys :=
  { s.withDatabase { s.files.database with rows := call.commit s.rows } with owners := call.newOwner s.rows ++ s.owners }

end AdmissionSys

/-- The checks between the lock and the database. -/
def inspectLegacy (home : StateHome) (files : StateFiles) : Except String Unit :=
  match assertLegacyApplicationStateMigrated home files with
  | .error message => .error (failClosed message)
  | .ok () => match files.legacyQueue with
    | .error message => .error (failClosed ("reconciliation state directory is unreadable: " ++ message))
    | .ok .live => .error liveLegacyWorkerMessage
    | .ok .malformed => .error malformedLegacyLockMessage
    | .ok _ => .ok ()

def afterRegistration (attempt : Nat) : Except ReconcilerError RegisterReconciliationResult → AdmissionPc
  | .ok result => .releasing (.ok result)
  | .error .ownerChanged =>
    if attempt + 1 < admissionAttempts then .observing (attempt + 1)
    else .releasing (.error (registrationFailure (.fenced
      "Reconciler ownership changed repeatedly during admission; retry the invocation.")))
  | .error error => .releasing (.error (registrationFailure error))

def advance (home : StateHome) (liveness : Liveness) (s : AdmissionSys) (i : Invocation) : AdmissionSys :=
  match i.pc with
  | .acquiring => match acquireStateCutoverLock home.applicationStateDirectory s.files.stateCutoverLock with
    | .error message => s.goto i (.returned (.error (failClosed message)))
    | .ok lockExists => (s.withLock lockExists).goto i .inspecting
  | .inspecting => match inspectLegacy home s.files with
    | .error text => s.goto i (.releasing (.error text))
    | .ok () => s.goto i .opening
  | .opening =>
    if s.files.database.uninitialized then s.goto i .initializing
    else match assertCompatibleSchema (resolveReconcilerDbPath home) s.files.database with
      | .error error => s.goto i (.releasing (.error (failClosed error.message)))
      | .ok () => s.goto i (.observing 0)
  | .initializing => match initializeSchema (resolveReconcilerDbPath home) s.files.database with
    | .error error => s.goto i (.releasing (.error (failClosed error.message)))
    | .ok database => (s.withDatabase database).goto i (.observing 0)
  | .observing attempt => match readReconcilerState s.rows with
    | .error error => s.goto i (.releasing (.error (registrationFailure error)))
    | .ok observed => s.goto i (.deciding attempt observed (ownerIsAlive liveness observed))
  | .deciding attempt observed alive =>
    (s.commit (.attempt i.options observed alive)).goto i
      (afterRegistration attempt (registrationAttempt i.options observed alive s.rows).1)
  | .releasing answer => (s.withLock false).goto i (.returned answer)
  | .returned _ => s

/-! ## The machine -/

inductive AdmissionEvent where
  | start (options : RegisterReconciliationOptions)
  | advance (token : String) (liveness : Liveness)
  /-- A later coordinator call of some registered launcher. -/
  | serve (call : Call)

def AdmissionEvent.advances (token : String) : AdmissionEvent → Bool
  | .advance t _ => t == token
  | _ => false

/-- A database no launcher has opened yet, or one earlier launchers left. -/
def AdmissionSys.Stored (s : AdmissionSys) : Prop :=
  (s.files.database = .empty ∧ s.owners = []) ∨
    (s.files.database.userVersion = reconcilerSchemaVersion ∧ reconcilerStateTable ∈ s.files.database.tables ∧
      ∃ calls, Run callMachine calls s.shared)

inductive AdmissionStep (home : StateHome) (s : AdmissionSys) : AdmissionEvent → AdmissionSys → Prop
  | start (options : RegisterReconciliationOptions) (valid : assertRegistrationOptions options = .ok ()) :
      options.token ∉ s.owners → s.invocations options.token = none →
      AdmissionStep home s (.start options)
        { s with invocations := Function.update s.invocations options.token (some ⟨options, valid, .acquiring⟩) }
  | advance (token : String) (liveness : Liveness) (i : Invocation) : s.invocations token = some i →
      AdmissionStep home s (.advance token liveness) (Reconciliation.advance home liveness s i)
  | serve (call : Call) : call.registration? = none → call.Admissible s.owners s.rows →
      s.files.database.uninitialized = false → AdmissionStep home s (.serve call) (s.commit call)

def admissionMachine (home : StateHome) : Machine AdmissionSys AdmissionEvent where
  init s := s.files.stateCutoverLock = false ∧ s.files.legacyState = none ∧ s.files.legacyQueue = .ok .none ∧
    s.Stored ∧ s.invocations = fun _ => none
  step := AdmissionStep home

/-- Nobody takes the lock while it is held, nobody's last attempt is overtaken, and the
    request counter has room. -/
def Unhindered (s : AdmissionSys) : AdmissionEvent → Prop
  | .start _ => True
  | .advance token _ => ∀ i, s.invocations token = some i →
      (i.pc = .acquiring → s.files.stateCutoverLock = false) ∧
        ∀ attempt observed alive, i.pc = .deciding attempt observed alive →
          ∀ row ∈ s.rows, row.requestedGeneration < maxSafeInteger
  | .serve call => ∀ token i observed alive, s.invocations token = some i →
      i.pc = .deciding (admissionAttempts - 1) observed alive → ∀ state,
        readReconcilerState (call.commit s.rows) = .ok state → ownerMatchesObservation state observed = true

/-! ## One attempt -/

section Attempts

theorem updateState_answers {row : RawStateRow} {set : RawStateRow → RawStateRow} (h1 : row.singletonId = 1)
    (hset : satisfiesChecks (set row) = true) : updateState [row] (fun _ => true) set = .ok (1, [set row]) := by
  simp [updateState, h1, hset]

theorem transaction_threw {α : Type} {db : Db} {operation : Db → Except ReconcilerError (α × Db)} {e : ReconcilerError}
    (h : operation db = .error e) : runReconcilerTransaction db operation = (.error e, db) := by
  unfold runReconcilerTransaction
  rw [h]

variable {c : Coordinator} (hc : c.WF)

include hc

/-- An attempt whose observation still holds is answered. -/
theorem attempt_answers {options : RegisterReconciliationOptions} {observed : ReconcilerStateRecord} {alive : Bool}
    (hmatches : ownerMatchesObservation c.record observed = true) :
    ∃ r db, registrationAttempt options observed alive [c.toRow] = (.ok r, db) := by
  have hle : c.completed ≤ c.requested + 1 := Int.le_trans hc.completedLe (Int.le_of_lt (Int.lt_succ c.requested))
  have hchecks : ∀ row : RawStateRow, row.singletonId = 1 → row.completedGeneration = c.completed →
      row.requestedGeneration = c.requested + 1 → satisfiesChecks row = true := by
    intro row h1 hcompleted hrequested
    simp [satisfiesChecks, h1, hcompleted, hrequested, hle]
  unfold registrationAttempt
  cases alive with
  | true =>
    refine ⟨.coalesced (c.requested + 1) c.record.ownerPid c.record.ownerCallerName,
      [{ c.toRow with requestedGeneration := c.requested + 1 }], transaction_ok.mpr ?_⟩
    simp only [Coordinator.read_toRow hc, bind_eq_ok, Except.ok.injEq, guard_eq_ok, exists_eq_left', hmatches, if_true]
    exact ⟨by decide, _, updateState_answers rfl (hchecks _ rfl rfl rfl), rfl⟩
  | false =>
    refine ⟨.owner (c.requested + 1) c.completed c.record.ownerToken.isSome c.record.ownerPid
      c.record.activeExecution.isSome, [c.toRow.acquire options (c.requested + 1)], transaction_ok.mpr ?_⟩
    simp only [Coordinator.read_toRow hc, bind_eq_ok, Except.ok.injEq, guard_eq_ok, exists_eq_left', hmatches,
      Bool.false_eq_true, if_false]
    exact ⟨by decide, _, updateState_answers rfl (hchecks _ rfl rfl rfl), rfl⟩

theorem attempt_overtaken {options : RegisterReconciliationOptions} {observed : ReconcilerStateRecord} {alive : Bool}
    (hmatches : ownerMatchesObservation c.record observed = false) :
    registrationAttempt options observed alive [c.toRow] = (.error .ownerChanged, [c.toRow]) := by
  unfold registrationAttempt
  refine transaction_threw ?_
  rw [Coordinator.read_toRow hc]
  exact if_pos hmatches

end Attempts

/-! ## The invariant -/

/-- It holds the lock. -/
def AdmissionPc.inside : AdmissionPc → Bool
  | .acquiring | .returned _ => false
  | _ => true

def AdmissionPc.answer : AdmissionPc → Option Answer
  | .releasing answer | .returned answer => some answer
  | _ => none

/-- The registration attempt in hand. -/
def AdmissionPc.attempt : AdmissionPc → Option Nat
  | .observing attempt | .deciding attempt _ _ => some attempt
  | _ => none

/-- The database has the schema, and its row is one the calls leave. -/
structure Opened (owners : List String) (database : Database) : Prop where
  version : database.userVersion = reconcilerSchemaVersion
  table : reconcilerStateTable ∈ database.tables
  good : Shared.Good ⟨owners, database.rows⟩

/-- What holds of an invocation at its point of admission. -/
structure InvocationOk (owners : List String) (database : Database) (token : String) (i : Invocation) : Prop where
  key : i.options.token = token
  fresh : i.pc.answer = none → token ∉ owners
  attempting : ∀ attempt, i.pc.attempt = some attempt → attempt < admissionAttempts ∧ Opened owners database
  lastAttempt : ∀ observed alive, i.pc = .deciding (admissionAttempts - 1) observed alive → ∀ state,
    readReconcilerState database.rows = .ok state → ownerMatchesObservation state observed = true
  answered : ∀ answer, i.pc.answer = some answer → ∃ result row, answer = .ok result ∧ database.rows = [row] ∧
    result.generation ≤ row.requestedGeneration

/-- The file as `openReconcilerDb` finds it. -/
def Usable (owners : List String) (database : Database) : Prop :=
  (database = .empty ∧ owners = []) ∨ Opened owners database

/-- Everyone is answered or on the way to it, and at most one holds the lock. -/
structure AdmissionSys.Good (s : AdmissionSys) : Prop where
  migrated : s.files.legacyState = none ∧ s.files.legacyQueue = .ok .none
  usable : Usable s.owners s.files.database
  locked : ∀ token i, s.invocations token = some i → i.pc.inside = true → s.files.stateCutoverLock = true
  exclusive : ∀ token i token' i', s.invocations token = some i → s.invocations token' = some i' →
    i.pc.inside = true → i'.pc.inside = true → token = token'
  invocationOk : ∀ token i, s.invocations token = some i → InvocationOk s.owners s.files.database token i

section Kept

variable {s base : AdmissionSys} {token : String} {i : Invocation} {pc : AdmissionPc}

/-- An invocation outside the lock only asks that its generation stays requested and its
    token unused. -/
theorem invocationOk_outside (h : InvocationOk s.owners s.files.database token i) (houtside : i.pc.inside = false)
    (howners : i.pc.answer = none → token ∉ base.owners)
    (hrows : ∀ row, s.rows = [row] → ∃ row', base.rows = [row'] ∧ row.requestedGeneration ≤ row'.requestedGeneration) :
    InvocationOk base.owners base.files.database token i := by
  refine ⟨h.key, howners, ?_, ?_, ?_⟩
  · intro attempt ha
    cases hpc : i.pc <;> simp [hpc, AdmissionPc.inside, AdmissionPc.attempt] at houtside ha
  · intro observed alive hpc
    rw [hpc] at houtside
    cases houtside
  · intro answer ha
    obtain ⟨result, row, hresult, hrow, hle⟩ := h.answered answer ha
    obtain ⟨row', hrow', hle'⟩ := hrows row hrow
    exact ⟨result, row', hresult, hrow', Int.le_trans hle hle'⟩

/-- What one invocation does while no other holds the lock keeps the invariant, if it
    keeps that invocation's part of it. -/
theorem good_goto (hs : s.Good) (hi : s.invocations token = some i) (hinvocations : base.invocations = s.invocations)
    (hmigrated : base.files.legacyState = none ∧ base.files.legacyQueue = .ok .none)
    (husable : Usable base.owners base.files.database)
    (hothers : ∀ token' i', s.invocations token' = some i' → token' ≠ token → i'.pc.inside = false)
    (hlock : pc.inside = true → base.files.stateCutoverLock = true)
    (howners : ∀ token', token' ∈ base.owners → token' ∈ s.owners ∨ token' = token)
    (hrows : ∀ row, s.rows = [row] → ∃ row', base.rows = [row'] ∧ row.requestedGeneration ≤ row'.requestedGeneration)
    (hok : InvocationOk base.owners base.files.database token { i with pc }) : (base.goto i pc).Good := by
  have hkey := (hs.invocationOk token i hi).key
  have hself : (base.goto i pc).invocations token = some { i with pc } := by
    simp [AdmissionSys.goto, hkey]
  have hother : ∀ token', token' ≠ token → (base.goto i pc).invocations token' = s.invocations token' := by
    intro token' hne
    simp [AdmissionSys.goto, hkey, Function.update_of_ne hne, hinvocations]
  have hinside : ∀ token' i', (base.goto i pc).invocations token' = some i' → i'.pc.inside = true →
      token' = token ∧ pc.inside = true := by
    intro token' i' hi' h
    by_cases hne : token' = token
    · subst hne
      rw [hself] at hi'
      cases hi'
      exact ⟨rfl, h⟩
    · rw [hother token' hne] at hi'
      rw [hothers token' i' hi' hne] at h
      cases h
  refine ⟨hmigrated, husable, ?_, ?_, ?_⟩
  · intro token' i' hi' h
    exact hlock (hinside token' i' hi' h).2
  · intro token₁ i₁ token₂ i₂ h₁ h₂ hin₁ hin₂
    rw [(hinside token₁ i₁ h₁ hin₁).1, (hinside token₂ i₂ h₂ hin₂).1]
  · intro token' i' hi'
    by_cases hne : token' = token
    · subst hne
      rw [hself] at hi'
      cases hi'
      exact hok
    · rw [hother token' hne] at hi'
      have h := hs.invocationOk token' i' hi'
      refine invocationOk_outside h (hothers token' i' hi' hne) ?_ hrows
      intro hanswer hmem
      rcases howners token' hmem with hmem | hsame
      · exact h.fresh hanswer hmem
      · exact hne hsame

/-- The same where nothing but the invocation and the lock changes. -/
theorem good_goto_unchanged (hs : s.Good) (hi : s.invocations token = some i) {lockExists : Bool}
    (hothers : ∀ token' i', s.invocations token' = some i' → token' ≠ token → i'.pc.inside = false)
    (hlock : pc.inside = true → lockExists = true) 
    (hok : InvocationOk s.owners s.files.database token { i with pc }) :
    ((s.withLock lockExists).goto i pc).Good :=
  good_goto hs hi rfl hs.migrated hs.usable hothers hlock (fun _ h => .inl h) (fun row h => ⟨row, h, Int.le_refl _⟩) hok

theorem AdmissionSys.Good.alone (hs : s.Good) (hi : s.invocations token = some i) (hinside : i.pc.inside = true) :
    ∀ token' i', s.invocations token' = some i' → token' ≠ token → i'.pc.inside = false := by
  intro token' i' hi' hne
  by_cases h : i'.pc.inside = true
  · exact absurd (hs.exclusive token' i' token i hi' hi h hinside) hne
  · simpa using h

theorem AdmissionSys.Good.vacant (hs : s.Good) (hlock : s.files.stateCutoverLock = false) :
    ∀ token' i', s.invocations token' = some i' → token' ≠ token → i'.pc.inside = false := by
  intro token' i' hi' _
  by_cases h : i'.pc.inside = true
  · rw [hs.locked token' i' hi' h] at hlock
    cases hlock
  · simpa using h

end Kept

/-! ## What each step does -/

theorem acquireStateCutoverLock_free (home : StateHome) :
    acquireStateCutoverLock home.applicationStateDirectory false = .ok true := by
  have habsolute : startsWith home.applicationStateDirectory "/" ≠ false := by
    rw [home.absolute]
    decide
  rw [acquireStateCutoverLock, resolveStateCutoverLockPath, if_neg habsolute]
  rfl

theorem inspectLegacy_migrated (home : StateHome) {files : StateFiles}
    (h : files.legacyState = none ∧ files.legacyQueue = .ok .none) : inspectLegacy home files = .ok () := by
  simp [inspectLegacy, assertLegacyApplicationStateMigrated, h.1, h.2]

theorem Opened.not_uninitialized {owners : List String} {database : Database} (h : Opened owners database) :
    database.uninitialized = false := by
  simp [Database.uninitialized, h.version, reconcilerSchemaVersion]

theorem Opened.compatible {owners : List String} {database : Database} (h : Opened owners database) (dbPath : String) :
    assertCompatibleSchema dbPath database = .ok () := by
  simp [assertCompatibleSchema, h.version, h.table]

theorem opened_initial : Opened [] ⟨reconcilerSchemaVersion, [reconcilerStateTable], initialDb⟩ := by
  refine ⟨rfl, List.mem_cons_self, .initial, initial_wf, rfl, ?_, ?_⟩
  · intro o h
    cases h
  · intro e h
    cases h

/-- The database the schema transaction leaves. -/
theorem initializeSchema_opens {owners : List String} {database : Database} (h : Usable owners database) (dbPath : String) :
    ∃ database', initializeSchema dbPath database = .ok database' ∧ Opened owners database' ∧
      ∀ row, database.rows = [row] → database'.rows = [row] := by
  rcases h with ⟨rfl, rfl⟩ | h
  · refine ⟨_, rfl, opened_initial, ?_⟩
    intro row hrow
    cases hrow
  · refine ⟨database, ?_, h, fun _ hrow => hrow⟩
    simp [initializeSchema, h.not_uninitialized, h.compatible, bind, Except.bind, pure, Except.pure]

theorem ownerMatchesObservation_self (state : ReconcilerStateRecord) : ownerMatchesObservation state state = true := by
  cases h : state.activeExecution <;> simp [ownerMatchesObservation, executionMatchesObservation, h]

/-- A point of admission between the attempts and the answer asks nothing new. -/
theorem InvocationOk.goto {owners : List String} {database : Database} {token : String} {i : Invocation} {pc : AdmissionPc}
    (h : InvocationOk owners database token i) (hbefore : i.pc.answer = none) (hanswer : pc.answer = none)
    (hattempt : pc.attempt = none) : InvocationOk owners database token { i with pc } := by
  refine ⟨h.key, fun _ => h.fresh hbefore, ?_, ?_, ?_⟩
  · intro attempt ha
    rw [show ({ i with pc } : Invocation).pc = pc from rfl, hattempt] at ha
    cases ha
  · intro observed alive hpc
    have hpc : pc = _ := hpc
    rw [hpc] at hattempt
    cases hattempt
  · intro answer ha
    rw [show ({ i with pc } : Invocation).pc = pc from rfl, hanswer] at ha
    cases ha

/-- The top of an attempt. -/
theorem InvocationOk.observe {owners : List String} {database : Database} {token : String} {i : Invocation}
    (hkey : i.options.token = token) (hfresh : token ∉ owners) (hopened : Opened owners database) {attempt : Nat}
    (hattempt : attempt < admissionAttempts) :
    InvocationOk owners database token { i with pc := .observing attempt } := by
  refine ⟨hkey, fun _ => hfresh, ?_, (fun _ _ h => by cases h), (fun _ h => by cases h)⟩
  intro attempt' ha
  cases ha
  exact ⟨hattempt, hopened⟩

section Steps

variable {s : AdmissionSys} {token : String} {i : Invocation}

theorem good_acquiring (home : StateHome) (liveness : Liveness) (hs : s.Good) (hi : s.invocations token = some i)
    (hpc : i.pc = .acquiring) (hfree : s.files.stateCutoverLock = false) : (advance home liveness s i).Good := by
  have hok := hs.invocationOk token i hi
  have hadvance : advance home liveness s i = (s.withLock true).goto i .inspecting := by
    simp only [advance, hpc, hfree, acquireStateCutoverLock_free]
  rw [hadvance]
  exact good_goto_unchanged hs hi (hs.vacant hfree) (fun _ => rfl) (hok.goto (by rw [hpc]; rfl) rfl rfl)

theorem good_inspecting (home : StateHome) (liveness : Liveness) (hs : s.Good) (hi : s.invocations token = some i)
    (hpc : i.pc = .inspecting) : (advance home liveness s i).Good := by
  have hok := hs.invocationOk token i hi
  have hinside : i.pc.inside = true := by rw [hpc]; rfl
  have hadvance : advance home liveness s i = (s.withLock s.files.stateCutoverLock).goto i .opening := by
    simp only [advance, hpc, inspectLegacy_migrated home hs.migrated]
    rfl
  rw [hadvance]
  exact good_goto_unchanged hs hi (hs.alone hi hinside) (fun _ => hs.locked token i hi hinside)
    (hok.goto (by rw [hpc]; rfl) rfl rfl)

theorem good_opening (home : StateHome) (liveness : Liveness) (hs : s.Good) (hi : s.invocations token = some i)
    (hpc : i.pc = .opening) : (advance home liveness s i).Good := by
  have hok := hs.invocationOk token i hi
  have hinside : i.pc.inside = true := by rw [hpc]; rfl
  have hbefore : i.pc.answer = none := by rw [hpc]; rfl
  have hlock := hs.locked token i hi hinside
  rcases hs.usable with ⟨hempty, howners⟩ | hopened
  · have hadvance : advance home liveness s i = (s.withLock s.files.stateCutoverLock).goto i .initializing := by
      simp only [advance, hpc, hempty]
      rfl
    rw [hadvance]
    exact good_goto_unchanged hs hi (hs.alone hi hinside) (fun _ => hlock) (hok.goto hbefore rfl rfl)
  · have hadvance : advance home liveness s i = (s.withLock s.files.stateCutoverLock).goto i (.observing 0) := by
      simp only [advance, hpc, hopened.not_uninitialized, hopened.compatible, Bool.false_eq_true, if_false]
      rfl
    rw [hadvance]
    exact good_goto_unchanged hs hi (hs.alone hi hinside) (fun _ => hlock)
      (.observe hok.key (hok.fresh hbefore) hopened (by decide))

theorem good_initializing (home : StateHome) (liveness : Liveness) (hs : s.Good) (hi : s.invocations token = some i)
    (hpc : i.pc = .initializing) : (advance home liveness s i).Good := by
  have hok := hs.invocationOk token i hi
  have hinside : i.pc.inside = true := by rw [hpc]; rfl
  have hbefore : i.pc.answer = none := by rw [hpc]; rfl
  obtain ⟨database, hschema, hopened, hrows⟩ := initializeSchema_opens hs.usable (resolveReconcilerDbPath home)
  have hadvance : advance home liveness s i = (s.withDatabase database).goto i (.observing 0) := by
    simp only [advance, hpc, hschema]
  rw [hadvance]
  refine good_goto hs hi rfl hs.migrated (.inr hopened) (hs.alone hi hinside) (fun _ => hs.locked token i hi hinside)
    (fun _ h => .inl h) ?_ (.observe hok.key (hok.fresh hbefore) hopened (by decide))
  intro row hrow
  exact ⟨row, hrows row hrow, Int.le_refl _⟩

theorem good_observing (home : StateHome) (liveness : Liveness) (hs : s.Good) (hi : s.invocations token = some i)
    {attempt : Nat} (hpc : i.pc = .observing attempt) : (advance home liveness s i).Good := by
  have hok := hs.invocationOk token i hi
  have hinside : i.pc.inside = true := by rw [hpc]; rfl
  obtain ⟨hattempt, hopened⟩ := hok.attempting attempt (by rw [hpc]; rfl)
  obtain ⟨c, hc, hrows, -, -⟩ := id hopened.good
  have hread : readReconcilerState s.rows = .ok c.record := by
    rw [show s.rows = [c.toRow] from hrows]
    exact Coordinator.read_toRow hc
  have hadvance : advance home liveness s i =
      (s.withLock s.files.stateCutoverLock).goto i (.deciding attempt c.record (ownerIsAlive liveness c.record)) := by
    simp only [advance, hpc, hread]
    rfl
  rw [hadvance]
  refine good_goto_unchanged hs hi (hs.alone hi hinside) (fun _ => hs.locked token i hi hinside)
    ⟨hok.key, fun _ => hok.fresh (by rw [hpc]; rfl), ?_, ?_, (fun _ h => by cases h)⟩
  · intro attempt' ha
    cases ha
    exact ⟨hattempt, hopened⟩
  · intro observed alive h state hstate
    cases h
    have hstate : readReconcilerState s.rows = .ok state := hstate
    rw [hread] at hstate
    cases hstate
    exact ownerMatchesObservation_self _

theorem good_releasing (home : StateHome) (liveness : Liveness) (hs : s.Good) (hi : s.invocations token = some i)
    {answer : Answer} (hpc : i.pc = .releasing answer) : (advance home liveness s i).Good := by
  have hok := hs.invocationOk token i hi
  have hinside : i.pc.inside = true := by rw [hpc]; rfl
  have hadvance : advance home liveness s i = (s.withLock false).goto i (.returned answer) := by
    simp only [advance, hpc]
  rw [hadvance]
  refine good_goto_unchanged hs hi (hs.alone hi hinside) (fun h => by cases h)
    ⟨hok.key, (fun h => by cases h), (fun _ h => by cases h), (fun _ _ h => by cases h), ?_⟩
  intro answer' ha
  refine hok.answered answer' ?_
  rw [hpc]
  exact ha

/-- The tokens a registration attempt adds are its launcher's. -/
theorem newOwner_attempt {options : RegisterReconciliationOptions} {observed : ReconcilerStateRecord} {alive : Bool} {db : Db}
    {token : String} (h : token ∈ (Call.attempt options observed alive).newOwner db) : token = options.token := by
  unfold Call.newOwner at h
  split at h
  · rename_i heq _
    cases heq
  · rename_i heq _
    cases heq
    exact List.mem_singleton.mp h
  · cases h

theorem good_deciding (home : StateHome) (liveness : Liveness) (hs : s.Good) (hi : s.invocations token = some i)
    {attempt : Nat} {observed : ReconcilerStateRecord} {alive : Bool} (hpc : i.pc = .deciding attempt observed alive)
    (hroom : ∀ row ∈ s.rows, row.requestedGeneration < maxSafeInteger) : (advance home liveness s i).Good := by
  have hok := hs.invocationOk token i hi
  have hinside : i.pc.inside = true := by rw [hpc]; rfl
  have hlock := hs.locked token i hi hinside
  have hfresh : token ∉ s.owners := hok.fresh (by rw [hpc]; rfl)
  obtain ⟨hattempt, hopened⟩ := hok.attempting attempt (by rw [hpc]; rfl)
  have hadvance : advance home liveness s i = (s.commit (.attempt i.options observed alive)).goto i
      (afterRegistration attempt (registrationAttempt i.options observed alive s.rows).1) := by
    simp only [advance, hpc]
  have hadmissible : (Call.attempt i.options observed alive).Admissible s.owners s.rows :=
    ⟨⟨by rw [hok.key]; exact hfresh, hroom⟩, i.valid⟩
  have hshared : Shared.Good ⟨(Call.attempt i.options observed alive).newOwner s.rows ++ s.owners,
      (Call.attempt i.options observed alive).commit s.rows⟩ := good_step hopened.good ⟨hadmissible, rfl⟩
  have hopened' : Opened (s.commit (.attempt i.options observed alive)).owners
      (s.commit (.attempt i.options observed alive)).files.database := ⟨hopened.version, hopened.table, hshared⟩
  have howners : ∀ token', token' ∈ (s.commit (.attempt i.options observed alive)).owners →
      token' ∈ s.owners ∨ token' = token := by
    intro token' h
    rcases List.mem_append.mp h with h | h
    · exact .inr ((newOwner_attempt h).trans hok.key)
    · exact .inl h
  obtain ⟨c, hc, hrows, -, -⟩ := id hopened.good
  have hrows : s.rows = [c.toRow] := hrows
  rw [hadvance]
  by_cases hmatches : ownerMatchesObservation c.record observed = true
  · obtain ⟨r, db, hanswer⟩ : ∃ r db, registrationAttempt i.options observed alive [c.toRow] = (.ok r, db) :=
      attempt_answers hc hmatches
    have hcommit : (s.commit (.attempt i.options observed alive)).rows = db := by
      show (registrationAttempt i.options observed alive s.rows).2 = db
      rw [hrows, hanswer]
    have hrequested : ∃ row, db = [row] ∧ r.generation = c.requested + 1 ∧ row.requestedGeneration = c.requested + 1 := by
      obtain ⟨-, ⟨-, rfl, rfl⟩ | ⟨-, rfl, rfl⟩⟩ := attempt_ok hc hanswer
      · exact ⟨_, rfl, rfl, rfl⟩
      · exact ⟨_, rfl, rfl, rfl⟩
    obtain ⟨row, hrow, hgeneration, hcounter⟩ := hrequested
    rw [hrows, hanswer]
    refine good_goto hs hi rfl hs.migrated (.inr hopened') (hs.alone hi hinside) (fun _ => hlock) howners ?_
      ⟨hok.key, (fun h => by cases h), (fun _ h => by cases h), (fun _ _ h => by cases h), ?_⟩
    · intro row' hrow'
      have hrow' : s.rows = [row'] := hrow'
      rw [hrows] at hrow'
      cases hrow'
      refine ⟨row, hcommit.trans hrow, ?_⟩
      rw [hcounter]
      exact Int.le_of_lt (Int.lt_succ c.requested)
    · intro answer ha
      cases ha
      exact ⟨r, row, rfl, hcommit.trans hrow, Int.le_of_eq (by rw [hgeneration, hcounter])⟩
  · -- Overtaken: the table and its owners stay, and this was not the last attempt.
    rw [Bool.not_eq_true] at hmatches
    have hanswer : registrationAttempt i.options observed alive s.rows = (.error .ownerChanged, s.rows) := by
      rw [hrows]
      exact attempt_overtaken hc hmatches
    have hnext : attempt + 1 < admissionAttempts := by
      by_cases hlast : attempt = admissionAttempts - 1
      · have hread : readReconcilerState s.files.database.rows = .ok c.record := by
          rw [show s.files.database.rows = [c.toRow] from hrows]
          exact Coordinator.read_toRow hc
        have hkept := hok.lastAttempt observed alive (hlast ▸ hpc) _ hread
        rw [hmatches] at hkept
        cases hkept
      · omega
    have hsame : ∀ token', token' ∈ (s.commit (.attempt i.options observed alive)).owners → token' ∈ s.owners := by
      intro token' h
      rcases List.mem_append.mp h with h | h
      · simp [Call.newOwner, Call.registration, hanswer] at h
      · exact h
    have hcommit : (s.commit (.attempt i.options observed alive)).rows = s.rows := by
      show (registrationAttempt i.options observed alive s.rows).2 = s.rows
      rw [hanswer]
    rw [hanswer]
    show ((s.commit (.attempt i.options observed alive)).goto i
      (if attempt + 1 < admissionAttempts then .observing (attempt + 1) else _)).Good
    rw [if_pos hnext]
    exact good_goto hs hi rfl hs.migrated (.inr hopened') (hs.alone hi hinside) (fun _ => hlock) howners
      (fun row hrow => ⟨row, hcommit.trans hrow, Int.le_refl _⟩)
      (.observe hok.key (fun h => hfresh (hsame token h)) hopened' hnext)

end Steps

theorem good_advance {home : StateHome} {liveness : Liveness} {s : AdmissionSys} {token : String} {i : Invocation}
    (hs : s.Good) (hi : s.invocations token = some i) (hclear : Unhindered s (.advance token liveness)) :
    (advance home liveness s i).Good := by
  obtain ⟨hfree, hroom⟩ := hclear i hi
  cases hpc : i.pc with
  | acquiring => exact good_acquiring home liveness hs hi hpc (hfree hpc)
  | inspecting => exact good_inspecting home liveness hs hi hpc
  | opening => exact good_opening home liveness hs hi hpc
  | initializing => exact good_initializing home liveness hs hi hpc
  | observing attempt => exact good_observing home liveness hs hi hpc
  | deciding attempt observed alive => exact good_deciding home liveness hs hi hpc (hroom attempt observed alive hpc)
  | releasing answer => exact good_releasing home liveness hs hi hpc
  | returned answer =>
    rw [show advance home liveness s i = s by simp only [advance, hpc]]
    exact hs

theorem newOwner_serve {call : Call} (hcall : call.registration? = none) (db : Db) : call.newOwner db = [] := by
  cases call <;> first | rfl | cases hcall

/-- A registered launcher's call leaves the requests, the tokens and the lock alone. -/
theorem good_serve {s : AdmissionSys} (hs : s.Good) {call : Call} (hcall : call.registration? = none)
    (hadmissible : call.Admissible s.owners s.rows) (hopen : s.files.database.uninitialized = false)
    (hclear : Unhindered s (.serve call)) : (s.commit call).Good := by
  have howners : (s.commit call).owners = s.owners := by
    show call.newOwner s.rows ++ s.owners = s.owners
    rw [newOwner_serve hcall]
    rfl
  have hopened : Opened s.owners s.files.database := by
    rcases hs.usable with ⟨hempty, -⟩ | hopened
    · rw [hempty] at hopen
      cases hopen
    · exact hopened
  have hopened' : Opened (s.commit call).owners (s.commit call).files.database :=
    ⟨hopened.version, hopened.table, good_step hopened.good ⟨hadmissible, rfl⟩⟩
  obtain ⟨c, hc, hrows, -, -⟩ := id hopened.good
  have hrows : s.rows = [c.toRow] := hrows
  have hrequested : ∃ row, (s.commit call).rows = [row] ∧ row.requestedGeneration = c.requested := by
    show ∃ row, call.commit s.rows = [row] ∧ row.requestedGeneration = c.requested
    rw [hrows]
    rcases commit_cases hc call with h | ⟨c', hmove, h⟩
    · exact ⟨_, h, rfl⟩
    · exact ⟨_, h, hmove.requested hcall⟩
  refine ⟨hs.migrated, .inr hopened', hs.locked, hs.exclusive, ?_⟩
  intro token i hi
  have hok := hs.invocationOk token i hi
  refine ⟨hok.key, ?_, ?_, ?_, ?_⟩
  · intro hanswer
    rw [howners]
    exact hok.fresh hanswer
  · intro attempt ha
    exact ⟨(hok.attempting attempt ha).1, hopened'⟩
  · intro observed alive hpc state hstate
    exact hclear token i observed alive hi hpc state hstate
  · intro answer ha
    obtain ⟨result, row, hresult, hrow, hle⟩ := hok.answered answer ha
    obtain ⟨row', hrow', hrequested⟩ := hrequested
    have hrow : s.rows = [row] := hrow
    rw [hrows] at hrow
    cases hrow
    exact ⟨result, row', hresult, hrow', by rw [hrequested]; exact hle⟩

theorem good_start {s : AdmissionSys} (hs : s.Good) {options : RegisterReconciliationOptions}
    (valid : assertRegistrationOptions options = .ok ()) (hfresh : options.token ∉ s.owners) :
    AdmissionSys.Good { s with
      invocations := Function.update s.invocations options.token (some ⟨options, valid, .acquiring⟩) } := by
  have hcases : ∀ token i, Function.update s.invocations options.token (some ⟨options, valid, .acquiring⟩) token = some i →
      s.invocations token = some i ∨ (token = options.token ∧ i = ⟨options, valid, .acquiring⟩) := by
    intro token i hi
    by_cases hsame : token = options.token
    · subst hsame
      rw [Function.update_self] at hi
      exact .inr ⟨rfl, (Option.some.inj hi).symm⟩
    · rw [Function.update_of_ne hsame] at hi
      exact .inl hi
  have hinside : ∀ token i, Function.update s.invocations options.token (some ⟨options, valid, .acquiring⟩) token = some i →
      i.pc.inside = true → s.invocations token = some i := by
    intro token i hi h
    rcases hcases token i hi with hi | ⟨-, rfl⟩
    · exact hi
    · cases h
  refine ⟨hs.migrated, hs.usable, ?_, ?_, ?_⟩
  · intro token i hi h
    exact hs.locked token i (hinside token i hi h) h
  · intro token i token' i' hi hi' h h'
    exact hs.exclusive token i token' i' (hinside token i hi h) (hinside token' i' hi' h') h h'
  · intro token i hi
    rcases hcases token i hi with hi | ⟨rfl, rfl⟩
    · exact hs.invocationOk token i hi
    · exact ⟨rfl, fun _ => hfresh, (fun _ h => by cases h), (fun _ _ h => by cases h), (fun _ h => by cases h)⟩

/-! ## Over every run -/

theorem good_init {home : StateHome} {s : AdmissionSys} (h : (admissionMachine home).init s) : s.Good := by
  obtain ⟨-, hlegacy, hqueue, hstored, hnone⟩ := h
  have hempty : ∀ token i, s.invocations token ≠ some i := by
    intro token i hi
    rw [hnone] at hi
    cases hi
  refine ⟨⟨hlegacy, hqueue⟩, ?_, (fun t i hi => absurd hi (hempty t i)), (fun t i _ _ hi => absurd hi (hempty t i)),
    fun t i hi => absurd hi (hempty t i)⟩
  rcases hstored with h | ⟨hversion, htable, calls, hrun⟩
  · exact .inl h
  · exact .inr ⟨hversion, htable, good_run hrun⟩

theorem good_admissionRun {home : StateHome} {tr : List AdmissionEvent} {s : AdmissionSys}
    (h : Run ((admissionMachine home).guarded Unhindered) tr s) : s.Good := by
  have hinit : ∀ s, ((admissionMachine home).guarded Unhindered).init s → s.Good := fun s hs => @good_init home s hs
  refine Run.invariant hinit ?_ h
  intro s e t hs hstep
  obtain ⟨hclear, hstep⟩ := hstep
  cases hstep with
  | start options valid hfresh _ => exact good_start hs valid hfresh
  | advance token liveness i hi => exact good_advance hs hi hclear
  | serve call hcall hadmissible hopen => exact good_serve hs hcall hadmissible hopen hclear

/-! ## Every invocation comes to its answer -/

/-- The steps an invocation takes at most: four before the attempts, two an attempt, and
    the release. -/
def admissionSteps : Nat := 2 * admissionAttempts + 5

def AdmissionPc.remaining : AdmissionPc → Nat
  | .acquiring => admissionSteps
  | .inspecting => 2 * admissionAttempts + 4
  | .opening => 2 * admissionAttempts + 3
  | .initializing => 2 * admissionAttempts + 2
  | .observing attempt => 2 * (admissionAttempts - attempt) + 1
  | .deciding attempt _ _ => 2 * (admissionAttempts - attempt)
  | .releasing _ => 1
  | .returned _ => 0

theorem afterRegistration_remaining {attempt : Nat} (hattempt : attempt < admissionAttempts)
    (outcome : Except ReconcilerError RegisterReconciliationResult) :
    (afterRegistration attempt outcome).remaining < 2 * (admissionAttempts - attempt) := by
  have hone : 1 < 2 * (admissionAttempts - attempt) := by omega
  unfold afterRegistration
  split
  · exact hone
  · by_cases hnext : attempt + 1 < admissionAttempts
    · rw [if_pos hnext]
      show 2 * (admissionAttempts - (attempt + 1)) + 1 < 2 * (admissionAttempts - attempt)
      omega
    · rw [if_neg hnext]
      exact hone
  · exact hone

/-- A step of an invocation's own brings it nearer its answer. -/
theorem advance_remaining {home : StateHome} {liveness : Liveness} {s : AdmissionSys} {token : String} {i : Invocation}
    (hs : s.Good) (hi : s.invocations token = some i) : ∃ i', (advance home liveness s i).invocations token = some i' ∧
      (i'.pc.remaining < i.pc.remaining ∨ i'.pc.remaining = 0) := by
  have hok := hs.invocationOk token i hi
  have hgoto : ∀ (base : AdmissionSys) (pc : AdmissionPc), pc.remaining < i.pc.remaining →
      ∃ i', (base.goto i pc).invocations token = some i' ∧ (i'.pc.remaining < i.pc.remaining ∨ i'.pc.remaining = 0) := by
    intro base pc hlt
    exact ⟨{ i with pc }, by simp [AdmissionSys.goto, hok.key], .inl hlt⟩
  cases hpc : i.pc with
  | acquiring =>
    simp only [advance, hpc] at hgoto ⊢
    split
    · exact hgoto _ _ (by simp [AdmissionPc.remaining, admissionSteps, admissionAttempts])
    · exact hgoto _ _ (by simp [AdmissionPc.remaining, admissionSteps, admissionAttempts])
  | inspecting =>
    simp only [advance, hpc] at hgoto ⊢
    split
    · exact hgoto _ _ (by simp [AdmissionPc.remaining, admissionAttempts])
    · exact hgoto _ _ (by simp [AdmissionPc.remaining, admissionAttempts])
  | opening =>
    simp only [advance, hpc] at hgoto ⊢
    split
    · exact hgoto _ _ (by simp [AdmissionPc.remaining, admissionAttempts])
    · split
      · exact hgoto _ _ (by simp [AdmissionPc.remaining, admissionAttempts])
      · exact hgoto _ _ (by simp [AdmissionPc.remaining, admissionAttempts])
  | initializing =>
    simp only [advance, hpc] at hgoto ⊢
    split
    · exact hgoto _ _ (by simp [AdmissionPc.remaining, admissionAttempts])
    · exact hgoto _ _ (by simp [AdmissionPc.remaining, admissionAttempts])
  | observing attempt =>
    have hattempt := (hok.attempting attempt (by rw [hpc]; rfl)).1
    simp only [advance, hpc] at hgoto ⊢
    split
    · refine hgoto _ _ ?_
      show 1 < 2 * (admissionAttempts - attempt) + 1
      omega
    · exact hgoto _ _ (Nat.lt_succ_self _)
  | deciding attempt observed alive =>
    have hattempt := (hok.attempting attempt (by rw [hpc]; rfl)).1
    simp only [advance, hpc] at hgoto ⊢
    exact hgoto _ _ (afterRegistration_remaining hattempt _)
  | releasing answer =>
    simp only [advance, hpc] at hgoto ⊢
    exact hgoto _ _ Nat.zero_lt_one
  | returned answer =>
    refine ⟨i, ?_, .inr (by rw [hpc]; rfl)⟩
    simp only [advance, hpc]
    exact hi

/-- An invocation has not taken more steps than it had. -/
structure Paced (tr : List AdmissionEvent) (s : AdmissionSys) : Prop where
  unstarted : ∀ token, s.invocations token = none → tr.countP (·.advances token) = 0
  started : ∀ token i, s.invocations token = some i →
    tr.countP (·.advances token) + i.pc.remaining ≤ admissionSteps ∨ i.pc.remaining = 0

theorem countP_snoc (tr : List AdmissionEvent) (e : AdmissionEvent) (token : String) :
    (tr ++ [e]).countP (·.advances token) = tr.countP (·.advances token) + if e.advances token then 1 else 0 := by
  rw [List.countP_append, List.countP_singleton]

theorem advance_other {home : StateHome} {liveness : Liveness} {s : AdmissionSys} {i : Invocation} {token : String}
    (hne : token ≠ i.options.token) : (advance home liveness s i).invocations token = s.invocations token := by
  have hgoto : ∀ (base : AdmissionSys) (pc : AdmissionPc), base.invocations = s.invocations →
      (base.goto i pc).invocations token = s.invocations token := by
    intro base pc hbase
    show Function.update base.invocations i.options.token _ token = s.invocations token
    rw [Function.update_of_ne hne, hbase]
  unfold advance
  split <;> (try split) <;> (try split) <;> first | rfl | exact hgoto _ _ rfl

theorem paced_step {home : StateHome} {tr : List AdmissionEvent} {s t : AdmissionSys} {e : AdmissionEvent} (hs : s.Good)
    (hpaced : Paced tr s) (hstep : AdmissionStep home s e t) : Paced (tr ++ [e]) t := by
  cases hstep with
  | start options valid hfresh hnone =>
    have hcount : ∀ token, (tr ++ [AdmissionEvent.start options]).countP (·.advances token) =
        tr.countP (·.advances token) := fun token => countP_snoc tr _ token
    refine ⟨?_, ?_⟩
    · intro token h
      have h : Function.update s.invocations options.token _ token = none := h
      have hne : token ≠ options.token := by
        intro hsame
        rw [hsame, Function.update_self] at h
        cases h
      rw [hcount]
      rw [Function.update_of_ne hne] at h
      exact hpaced.unstarted token h
    · intro token i hi
      have hi : Function.update s.invocations options.token _ token = some i := hi
      rw [hcount]
      by_cases hsame : token = options.token
      · subst hsame
        rw [Function.update_self] at hi
        cases hi
        rw [hpaced.unstarted _ hnone]
        exact .inl (Nat.le_of_eq (Nat.zero_add admissionSteps))
      · rw [Function.update_of_ne hsame] at hi
        exact hpaced.started token i hi
  | serve call _ _ _ =>
    have hcount : ∀ token, (tr ++ [AdmissionEvent.serve call]).countP (·.advances token) =
        tr.countP (·.advances token) := fun token => countP_snoc tr _ token
    refine ⟨?_, ?_⟩
    · intro token h
      rw [hcount]
      exact hpaced.unstarted token h
    · intro token i hi
      rw [hcount]
      exact hpaced.started token i hi
  | advance token liveness i hi =>
    obtain ⟨i', hi', hless⟩ : ∃ i', (advance home liveness s i).invocations token = some i' ∧
        (i'.pc.remaining < i.pc.remaining ∨ i'.pc.remaining = 0) := advance_remaining hs hi
    have hkey := (hs.invocationOk token i hi).key
    have hother : ∀ token', token' ≠ token → (advance home liveness s i).invocations token' = s.invocations token' ∧
        (tr ++ [AdmissionEvent.advance token liveness]).countP (·.advances token') = tr.countP (·.advances token') := by
      intro token' hne
      refine ⟨advance_other (by rw [hkey]; exact hne), ?_⟩
      rw [countP_snoc]
      simp [AdmissionEvent.advances, Ne.symm hne]
    refine ⟨?_, ?_⟩
    · intro token' h
      by_cases hsame : token' = token
      · subst hsame
        rw [hi'] at h
        cases h
      · rw [(hother token' hsame).1] at h
        rw [(hother token' hsame).2]
        exact hpaced.unstarted token' h
    · intro token' j hj
      by_cases hsame : token' = token
      · subst hsame
        rw [hi'] at hj
        cases hj
        have hcount : (tr ++ [AdmissionEvent.advance token' liveness]).countP (·.advances token') =
            tr.countP (·.advances token') + 1 := by
          rw [countP_snoc]
          simp [AdmissionEvent.advances]
        rw [hcount]
        rcases hpaced.started token' i hi with h | h <;> rcases hless with hless | hless <;> omega
      · rw [(hother token' hsame).1] at hj
        rw [(hother token' hsame).2]
        exact hpaced.started token' j hj

theorem paced_run {home : StateHome} {tr : List AdmissionEvent} {s : AdmissionSys}
    (h : Run ((admissionMachine home).guarded Unhindered) tr s) : Paced tr s := by
  refine Run.traceInvariant (P := Paced) ?_ ?_ h
  · intro s hinit
    obtain ⟨-, -, -, -, hnone⟩ := hinit
    refine ⟨fun _ _ => rfl, ?_⟩
    intro token i hi
    rw [hnone] at hi
    cases hi
  · intro tr s e t hrun hpaced hstep
    exact paced_step (good_admissionRun hrun) hpaced hstep.2

theorem returned_of_remaining {pc : AdmissionPc} (h : pc.remaining = 0)
    (hattempt : ∀ attempt, pc.attempt = some attempt → attempt < admissionAttempts) : ∃ answer, pc = .returned answer := by
  cases pc with
  | returned answer => exact ⟨answer, rfl⟩
  | deciding attempt observed alive =>
    have hlt := hattempt attempt rfl
    have h : 2 * (admissionAttempts - attempt) = 0 := h
    omega
  | _ => cases h

/-- No launcher is refused: whoever has an answer is OWNER or COALESCED with a generation
    that is in the row, and whoever has taken `admissionSteps` steps has returned with it. -/
theorem admissions_answered {home : StateHome} {tr : List AdmissionEvent} {s : AdmissionSys}
    (h : Run ((admissionMachine home).guarded Unhindered) tr s) {token : String} {i : Invocation}
    (hi : s.invocations token = some i) :
    (∀ answer, i.pc.answer = some answer → ∃ result row, answer = .ok result ∧ s.rows = [row] ∧
        result.generation ≤ row.requestedGeneration) ∧
      (admissionSteps ≤ tr.countP (·.advances token) → ∃ result, i.pc = .returned (.ok result)) := by
  have hok := (good_admissionRun h).invocationOk token i hi
  refine ⟨hok.answered, ?_⟩
  intro hsteps
  have hremaining : i.pc.remaining = 0 := by
    rcases (paced_run h).started token i hi with h | h
    · omega
    · exact h
  obtain ⟨answer, hpc⟩ := returned_of_remaining hremaining fun attempt ha => (hok.attempting attempt ha).1
  obtain ⟨result, row, hresult, -, -⟩ := hok.answered answer (by rw [hpc]; rfl)
  exact ⟨result, by rw [hpc, hresult]⟩

/-! ## Two launchers at once -/

def AdmissionSys.pcOf (s : AdmissionSys) (token : String) : Option AdmissionPc := (s.invocations token).map (·.pc)

/-- The invocation's next step, with every owner read as dead. -/
def AdmissionSys.turn (home : StateHome) (s : AdmissionSys) (token : String) : AdmissionSys :=
  match s.invocations token with
  | some i => advance home ⟨fun _ => false, fun _ => none⟩ s i
  | none => s

theorem turn_step {home : StateHome} {s : AdmissionSys} {token : String} {pc : AdmissionPc} (h : s.pcOf token = some pc) :
    AdmissionStep home s (.advance token ⟨fun _ => false, fun _ => none⟩) (s.turn home token) := by
  obtain ⟨i, hi, -⟩ := Option.map_eq_some_iff.mp h
  have hturn : s.turn home token = advance home ⟨fun _ => false, fun _ => none⟩ s i := by
    unfold AdmissionSys.turn
    rw [hi]
  rw [hturn]
  exact .advance token _ i hi

theorem unhindered_turn {s : AdmissionSys} {token : String} {liveness : Liveness} {pc : AdmissionPc} (h : s.pcOf token = some pc)
    (hfree : pc = .acquiring → s.files.stateCutoverLock = false)
    (hroom : ∀ row ∈ s.rows, row.requestedGeneration < maxSafeInteger) : Unhindered s (.advance token liveness) := by
  intro i hi
  have hpc : i.pc = pc := by
    rw [AdmissionSys.pcOf, hi] at h
    exact Option.some.inj h
  refine ⟨?_, fun _ _ _ _ => hroom⟩
  intro hacquiring
  exact hfree (hpc ▸ hacquiring)

def userHome : StateHome := ⟨"/home/user", "/home/user/.local/state/git-commits-push", by decide⟩

def contenderOptions (token : String) : RegisterReconciliationOptions := ⟨token, 100, 1, "birth", "cli", "human", none, 5⟩

def uncontended : AdmissionSys := ⟨⟨false, none, .ok .none, .empty⟩, [], fun _ => none⟩

/-- Two launchers have started and neither has moved. -/
def contending : AdmissionSys :=
  { uncontended with
    invocations := Function.update (Function.update uncontended.invocations "launcher-a"
      (some ⟨contenderOptions "launcher-a", by decide, .acquiring⟩)) "launcher-b"
      (some ⟨contenderOptions "launcher-b", by decide, .acquiring⟩) }

theorem contending_run : Run ((admissionMachine userHome).guarded Unhindered)
    [.start (contenderOptions "launcher-a"), .start (contenderOptions "launcher-b")] contending := by
  have hstart : ∀ {tr : List AdmissionEvent} {s : AdmissionSys} (options : RegisterReconciliationOptions)
      (valid : assertRegistrationOptions options = .ok ()), Run ((admissionMachine userHome).guarded Unhindered) tr s →
      options.token ∉ s.owners → s.invocations options.token = none →
      Run ((admissionMachine userHome).guarded Unhindered) (tr ++ [.start options]) { s with
        invocations := Function.update s.invocations options.token (some ⟨options, valid, .acquiring⟩) } :=
    fun options valid h hfresh hnone => h.snoc ⟨True.intro, .start options valid hfresh hnone⟩
  have hfirst := hstart (contenderOptions "launcher-a") (by decide)
    (Run.start (s := uncontended) ⟨rfl, rfl, rfl, .inl ⟨rfl, rfl⟩, rfl⟩) (by decide) rfl
  exact hstart (contenderOptions "launcher-b") (by decide) hfirst (by decide) rfl

/-- The second launcher's mkdir comes while the first holds the lock: it exits with 2 and
    registers nothing. -/
theorem concurrent_admission_refused : ∃ tr s, Run (admissionMachine userHome) tr s ∧
    s.pcOf "launcher-a" = some .inspecting ∧ s.pcOf "launcher-b" = some (.returned (.error (failClosed
      "State migration lock is already held: /home/user/.local/state/git-commits-push.migration-lock"))) := by
  have h := contending_run.of_guarded
  have h := h.snoc (@turn_step userHome _ "launcher-a" .acquiring (by decide))
  have h := h.snoc (@turn_step userHome _ "launcher-b" .acquiring (by decide))
  exact ⟨_, _, h, by decide, by decide⟩

def AdmissionSys.turns (token : String) : Nat → AdmissionSys → AdmissionSys
  | 0, s => s
  | n + 1, s => (s.turns token n).turn userHome token

theorem turns_run (s : AdmissionSys) (token : String) {tr : List AdmissionEvent} (n : Nat) (pc : AdmissionPc)
    (h : Run ((admissionMachine userHome).guarded Unhindered) tr (s.turns token n))
    (hpc : (s.turns token n).pcOf token = some pc)
    (hfree : pc = .acquiring → (s.turns token n).files.stateCutoverLock = false)
    (hroom : ∀ row ∈ (s.turns token n).rows, row.requestedGeneration < maxSafeInteger) :
    ∃ tr', Run ((admissionMachine userHome).guarded Unhindered) tr' (s.turns token (n + 1)) :=
  ⟨_, h.snoc ⟨unhindered_turn hpc hfree hroom, turn_step hpc⟩⟩

/-- Alone at the lock, the first launcher is answered OWNER of generation 1. -/
theorem admissions_answered_alone : (contending.turns "launcher-a" 7).pcOf "launcher-a" =
    some (.returned (.ok (.owner 1 0 false none false))) ∧
      ∃ result row, (.ok (.owner 1 0 false none false) : Answer) = .ok result ∧
        (contending.turns "launcher-a" 7).rows = [row] ∧ result.generation ≤ row.requestedGeneration := by
  have hreturned : (contending.turns "launcher-a" 7).pcOf "launcher-a" =
      some (.returned (.ok (.owner 1 0 false none false))) := by decide
  refine ⟨hreturned, ?_⟩
  obtain ⟨_, h⟩ := turns_run contending "launcher-a" 0 .acquiring contending_run
    (by decide) (by decide) (by decide)
  obtain ⟨_, h⟩ := turns_run contending "launcher-a" 1 .inspecting h
    (by decide) (by decide) (by decide)
  obtain ⟨_, h⟩ := turns_run contending "launcher-a" 2 .opening h
    (by decide) (by decide) (by decide)
  obtain ⟨_, h⟩ := turns_run contending "launcher-a" 3 .initializing h
    (by decide) (by decide) (by decide)
  obtain ⟨_, h⟩ := turns_run contending "launcher-a" 4 (.observing 0) h
    (by decide) (by decide) (by decide)
  obtain ⟨_, h⟩ := turns_run contending "launcher-a" 5 (.deciding 0 Coordinator.initial.record false) h
    (by decide) (by decide) (by decide)
  obtain ⟨_, h⟩ := turns_run contending "launcher-a" 6 (.releasing (.ok (.owner 1 0 false none false))) h
    (by decide) (by decide) (by decide)
  obtain ⟨i, hi, hpc⟩ := Option.map_eq_some_iff.mp hreturned
  exact (admissions_answered h hi).1 _ (by rw [hpc]; rfl)

end GitCommitsPush.Reconciliation
