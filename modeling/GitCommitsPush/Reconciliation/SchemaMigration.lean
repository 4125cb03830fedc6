/-
  GitCommitsPush.Reconciliation.SchemaMigration — the upgrade of a coordinator database of schema
  version 2 in place (`scripts/reconciler-v2-migration.mjs`, run by `migrate-reconciler-v2.mjs`).

  A table is its rows by column name, as `SELECT *` shows them; the value of a REAL column that is
  no integer and a BLOB are `other`. A REAL integer is that integer. `MigrationSight` is what the
  migration is answered: the file before it, the database before and under the write lock, and
  what SQLite refuses. SQLite's transactions are whole, and a row the columns of version 3 do
  not fit is one their STRICT table cannot hold.

  - `v2_migration_exact`: left alone, the migration goes through exactly on an idle row of a
    checkpointed database it was told is unused, and otherwise leaves the database as it was.
  - `v2_generations_kept`: the migrated database is one the launchers' calls keep readable, with
    no generation lost, and a second migration finds nothing to do.
-/

import GitCommitsPush.Reconciliation.CutoverPreflight
import GitCommitsPush.Reconciliation.Fencing

namespace GitCommitsPush.Reconciliation.SchemaMigration

open GitCommitsPush.Lib.Fallible
open GitCommitsPush.Lib.JsText
open GitCommitsPush.Lib.Runs
open GitCommitsPush.Reconciliation.Cutover

/-! ## Tables by column name -/

inductive SqlValue where
  | null
  | integer (n : Int)
  | text (s : String)
  | other
  deriving DecidableEq, Repr

abbrev Row := List (String × SqlValue)

/-- `row[name]`; none is `undefined`. -/
def Row.field (row : Row) (name : String) : Option SqlValue := (row.find? (·.1 == name)).map (·.2)

/-- The database file's contents. -/
structure Contents where
  userVersion : Int
  /-- The rows of `reconciler_state`, if there is such a table. -/
  state : Option (List Row)
  otherTables : List String
  deriving DecidableEq, Repr

def Contents.tables (contents : Contents) : List String :=
  (if contents.state.isSome then [reconcilerStateTable] else []) ++ contents.otherTables

/-- An integer that has no JavaScript number. -/
def Row.tooLarge (row : Row) : Option Int :=
  row.findSome? fun field => match field.2 with
    | .integer n => if isSafeInteger n then none else some n
    | _ => none

/-- `SELECT * FROM reconciler_state`. -/
def selectState (contents : Contents) : Except String (List Row) :=
  match contents.state with
  | none => .error "no such table: reconciler_state"
  | some rows => match rows.findSome? Row.tooLarge with
    | some n => .error ("Value is too large to be represented as a JavaScript number: " ++ toString n)
    | none => .ok rows

/-! ## Rows of version 3 -/

def Row.int (row : Row) (name : String) : Option Int :=
  match row.field name with
  | some (.integer n) => some n
  | _ => none

def Row.nullableInt (row : Row) (name : String) : Option (Option Int) :=
  match row.field name with
  | some (.integer n) => some (some n)
  | some .null => some none
  | _ => none

def Row.nullableText (row : Row) (name : String) : Option (Option String) :=
  match row.field name with
  | some (.text s) => some (some s)
  | some .null => some none
  | _ => none

/-- The columns of version 3, by name. -/
def decode (row : Row) : Option RawStateRow := do
  return {
    singletonId := ← row.int "singleton_id"
    requestedGeneration := ← row.int "requested_generation"
    completedGeneration := ← row.int "completed_generation"
    runningGeneration := ← row.nullableInt "running_generation"
    ownerToken := ← row.nullableText "owner_token"
    ownerPid := ← row.nullableInt "owner_pid"
    ownerBootEpochMs := ← row.nullableInt "owner_boot_epoch_ms"
    ownerProcessIdentity := ← row.nullableText "owner_process_identity"
    ownerCallerName := ← row.nullableText "owner_caller_name"
    ownerOriginAgent := ← row.nullableText "owner_origin_agent"
    ownerSessionId := ← row.nullableText "owner_session_id"
    heartbeatAtEpochMs := ← row.nullableInt "heartbeat_at_epoch_ms"
    executionToken := ← row.nullableText "execution_token"
    executionGeneration := ← row.nullableInt "execution_generation"
    executionPid := ← row.nullableInt "execution_pid"
    executionProcessIdentity := ← row.nullableText "execution_process_identity"
    executionGroupId := ← row.nullableInt "execution_group_id"
    executionBoundaryKind := ← row.nullableText "execution_boundary_kind"
    executionOwnerToken := ← row.nullableText "execution_owner_token"
    executionState := ← row.nullableText "execution_state" }

def decodeRows (rows : List Row) : Option Db := rows.mapM decode

/-- `readReconcilerState` on the file. -/
def readContents (contents : Contents) : Except String ReconcilerStateRecord :=
  match selectState contents with
  | .error message => .error message
  | .ok rows => match decodeRows rows with
    | none => .error "datatype mismatch"
    | some db => match readReconcilerState db with
      | .error error => .error error.text
      | .ok state => .ok state

def intValue : Option Int → SqlValue
  | some n => .integer n
  | none => .null

def textValue : Option String → SqlValue
  | some s => .text s
  | none => .null

/-- The row as the table of version 3 holds it. -/
def encode (row : RawStateRow) : Row :=
  [("singleton_id", .integer row.singletonId), ("requested_generation", .integer row.requestedGeneration),
    ("completed_generation", .integer row.completedGeneration), ("running_generation", intValue row.runningGeneration),
    ("owner_token", textValue row.ownerToken), ("owner_pid", intValue row.ownerPid),
    ("owner_boot_epoch_ms", intValue row.ownerBootEpochMs), ("owner_process_identity", textValue row.ownerProcessIdentity),
    ("owner_caller_name", textValue row.ownerCallerName), ("owner_origin_agent", textValue row.ownerOriginAgent),
    ("owner_session_id", textValue row.ownerSessionId), ("heartbeat_at_epoch_ms", intValue row.heartbeatAtEpochMs),
    ("execution_token", textValue row.executionToken), ("execution_generation", intValue row.executionGeneration),
    ("execution_pid", intValue row.executionPid), ("execution_process_identity", textValue row.executionProcessIdentity),
    ("execution_group_id", intValue row.executionGroupId), ("execution_boundary_kind", textValue row.executionBoundaryKind),
    ("execution_owner_token", textValue row.executionOwnerToken), ("execution_state", textValue row.executionState)]

/-! ## The migration -/

def SQLITE_SIDECAR_SUFFIXES : List String := ["-journal", "-shm", "-wal"]

def V2_OWNER_FIELDS : List String :=
  ["running_generation", "owner_token", "owner_pid", "owner_boot_epoch_ms", "owner_process_identity", "owner_caller_name",
    "owner_origin_agent", "owner_session_id", "heartbeat_at_epoch_ms"]

def RECONCILER_EXECUTION_COLUMN_DEFINITIONS : List String :=
  ["execution_token TEXT", "execution_generation INTEGER", "execution_pid INTEGER", "execution_process_identity TEXT",
    "execution_group_id INTEGER", "execution_boundary_kind TEXT", "execution_owner_token TEXT", "execution_state TEXT"]

/-- What stands at the path of the database. -/
structure FileEntry where
  isFile : Bool
  isSymbolicLink : Bool
  size : Nat
  deriving DecidableEq, Repr

structure MigrationSight where
  confirmedNoLiveExecution : Bool
  /-- None when `existsSync` finds nothing. -/
  entry : Option FileEntry
  /-- The sidecar with that suffix exists. -/
  sidecar : String → Bool
  connection : Except String Unit
  before : Contents
  begin' : Except String Unit
  /-- Under the write lock. -/
  locked : Contents
  commit : Except String Unit
  /-- What others make of the committed file before it is verified. -/
  later : Contents → Contents
  reopened : Except String Unit

inductive MigrationOutcome where
  | alreadyCurrent
  | migrated
  deriving DecidableEq, Repr

def assertRegularCheckpointedDatabase (dbPath : String) (sight : MigrationSight) : Except String Unit :=
  match sight.entry with
  | none => .error ("Reconciler database is absent: " ++ dbPath)
  | some stats =>
    if stats.isFile = false ∨ stats.isSymbolicLink = true ∨ stats.size = 0 then
      .error ("Reconciler database must be a non-empty regular file: " ++ dbPath)
    else if SQLITE_SIDECAR_SUFFIXES.filter sight.sidecar ≠ [] then
      .error ("Reconciler database has uncheckpointed SQLite sidecars: " ++
        joinStrings ", " ((SQLITE_SIDECAR_SUFFIXES.filter sight.sidecar).map (dbPath ++ ·)))
    else .ok ()

/-- `requested_generation` equals `completed_generation`, both safe and not negative. -/
def convergedGenerations (row : Row) : Bool :=
  match row.int "requested_generation", row.int "completed_generation" with
  | some requested, some completed =>
    isSafeInteger requested && isSafeInteger completed && decide (0 ≤ requested) && requested == completed
  | _, _ => false

def assertIdleRows : List Row → Except String Unit
  | [row] =>
    if row.field "singleton_id" ≠ some (.integer 1) then .error "Schema-v2 reconciler state is not one singleton row."
    else if convergedGenerations row = false then
      .error "Schema-v2 migration requires requested_generation to equal completed_generation."
    else if V2_OWNER_FIELDS.any (fun name => row.field name != some .null) then
      .error "Schema-v2 migration requires an idle row with no recorded owner or running generation."
    else .ok ()
  | _ => .error "Schema-v2 reconciler state is not one singleton row."

def assertIdleConvergedV2State (contents : Contents) : Except String Unit :=
  match selectState contents with
  | .error message => .error message
  | .ok rows => assertIdleRows rows

/-- The name a column definition starts with. -/
def columnName (definition : String) : String := String.ofList (definition.toList.takeWhile (· != ' '))

/-- SQLite's column names are compared without case. -/
def foldCase (name : String) : List Char := name.toList.map Char.toLower

/-- `ALTER TABLE reconciler_state ADD COLUMN`, on one row's columns. -/
def addColumn (row : Row) (definition : String) : Except String Row :=
  let name := columnName definition
  if row.any (fun field => foldCase field.1 == foldCase name) then .error ("duplicate column name: " ++ name)
  else .ok (row ++ [(name, .null)])

def addColumns (row : Row) : Except String Row := RECONCILER_EXECUTION_COLUMN_DEFINITIONS.foldlM addColumn row

/-- What is done between BEGIN and COMMIT; the error rolls back. -/
def upgrade (locked : Contents) : Except String Contents := do
  if locked.userVersion ≠ 2 then throw "Reconciler schema changed during migration admission."
  assertIdleConvergedV2State locked
  let rows ← (locked.state.getD []).mapM addColumns
  return { locked with userVersion := reconcilerSchemaVersion, state := some rows }

/-- `openReconcilerDb` with `readOnly`, and the reading after it. -/
def verifyMigrated (dbPath : String) (reopened : Except String Unit) (contents : Contents) : Except String Unit :=
  let sight : DatabaseSight := ⟨.regular, fun _ => false, .ok "", reopened, .ok (contents.userVersion, contents.tables), .ok []⟩
  match openReadOnly dbPath sight with
  | .error (.missing message) => .error message
  | .error (.failed error) => .error error.message
  | .ok () => match readContents contents with
    | .error message => .error message
    | .ok state => if state.activeExecution ≠ none then .error "Migrated reconciler unexpectedly contains execution state."
        else .ok ()

/-- The answer, and the contents the migration leaves. -/
def migrateReconcilerV2Database (dbPath : String) (sight : MigrationSight) : Except String MigrationOutcome × Contents :=
  if sight.confirmedNoLiveExecution = false then
    (.error ("Schema-v2 migration requires explicit confirmation that no launcher, supervisor, or descendant execution " ++
      "remains alive."), sight.locked)
  else match assertRegularCheckpointedDatabase dbPath sight with
    | .error message => (.error message, sight.locked)
    | .ok () => match sight.connection with
      | .error message => (.error message, sight.locked)
      | .ok () =>
        if sight.before.userVersion = reconcilerSchemaVersion then
          match readContents sight.before with
          | .error message => (.error message, sight.locked)
          | .ok _ => (.ok .alreadyCurrent, sight.locked)
        else if sight.before.userVersion ≠ 2 then
          (.error ("Only reconciler schema version 2 can be migrated; found " ++ toString sight.before.userVersion ++ "."), sight.locked)
        else match sight.begin' with
          | .error message => (.error message, sight.locked)
          | .ok () => match upgrade sight.locked with
            | .error message => (.error message, sight.locked)
            | .ok upgraded => match sight.commit with
              | .error message => (.error message, sight.locked)
              | .ok () => match verifyMigrated dbPath sight.reopened (sight.later upgraded) with
                | .error message => (.error message, sight.later upgraded)
                | .ok () => (.ok .migrated, sight.later upgraded)

/-- Nobody else writes and SQLite refuses nothing. -/
structure MigrationSight.Quiet (sight : MigrationSight) : Prop where
  connection : sight.connection = .ok ()
  begin' : sight.begin' = .ok ()
  locked : sight.locked = sight.before
  commit : sight.commit = .ok ()
  later : ∀ contents, sight.later contents = contents
  reopened : sight.reopened = .ok ()

/-! ## Columns -/

section Columns

variable {row row' : Row} {name : String}

theorem Row.field_append (row more : Row) (name : String) : (row ++ more).field name = (row.field name).or (more.field name) := by
  unfold Row.field
  rw [List.find?_append]
  cases row.find? (·.1 == name) <;> rfl

theorem Row.field_kept {value : SqlValue} (h : row.field name = some value) (more : Row) : (row ++ more).field name = some value := by
  rw [Row.field_append, h]
  rfl

theorem Row.field_fresh (h : ∀ field ∈ row, foldCase field.1 ≠ foldCase name) (more : Row) : (row ++ more).field name = more.field name := by
  have hnone : row.field name = none := by
    unfold Row.field
    rw [Option.map_eq_none_iff, List.find?_eq_none]
    intro field hfield hname
    exact h field hfield (by rw [beq_iff_eq.mp hname])
  rw [Row.field_append, hnone]
  rfl

theorem addColumn_eq_ok {definition : String} : addColumn row definition = .ok row' ↔
    (∀ field ∈ row, foldCase field.1 ≠ foldCase (columnName definition)) ∧ row' = row ++ [(columnName definition, .null)] := by
  unfold addColumn
  by_cases h : row.any (fun field => foldCase field.1 == foldCase (columnName definition)) = true
  · rw [if_pos h]
    obtain ⟨field, hfield, hname⟩ := List.any_eq_true.mp h
    exact ⟨(fun heq => by cases heq), fun heq => absurd (beq_iff_eq.mp hname) (heq.1 field hfield)⟩
  · rw [if_neg h]
    have hfresh : ∀ field ∈ row, foldCase field.1 ≠ foldCase (columnName definition) := fun field hfield heq =>
      h (List.any_eq_true.mpr ⟨field, hfield, beq_iff_eq.mpr heq⟩)
    exact ⟨fun heq => ⟨hfresh, (Except.ok.inj heq).symm⟩, fun heq => by rw [heq.2]⟩

/-- The columns the definitions add, all null. -/
def added (definitions : List String) : Row := definitions.map fun definition => (columnName definition, .null)

/-- The induction is on the definitions; the ones before are columns by then. -/
theorem foldlM_addColumn {definitions : List String}
    (hdistinct : definitions.Pairwise fun a b => foldCase (columnName a) ≠ foldCase (columnName b)) {row : Row} :
    definitions.foldlM addColumn row = .ok row' ↔
      (∀ definition ∈ definitions, ∀ field ∈ row, foldCase field.1 ≠ foldCase (columnName definition)) ∧ row' = row ++ added definitions := by
  induction definitions generalizing row with
  | nil =>
    simp only [List.foldlM_nil, pure_eq_ok, added, List.map_nil, List.append_nil]
    exact ⟨fun h => ⟨(fun _ h => by cases h), h.symm⟩, fun h => h.2.symm⟩
  | cons definition definitions ih =>
    obtain ⟨hfirst, hrest⟩ := List.pairwise_cons.mp hdistinct
    simp only [List.foldlM_cons, bind_eq_ok, addColumn_eq_ok, ih hrest]
    constructor
    · rintro ⟨middle, ⟨hfresh, rfl⟩, hothers, rfl⟩
      refine ⟨fun other hother field hfield => ?_, by simp [added]⟩
      rcases List.mem_cons.mp hother with rfl | hother
      · exact hfresh field hfield
      · exact hothers other hother field (List.mem_append_left _ hfield)
    · rintro ⟨hfresh, rfl⟩
      refine ⟨_, ⟨hfresh definition List.mem_cons_self, rfl⟩, fun other hother field hfield => ?_, by simp [added]⟩
      rcases List.mem_append.mp hfield with hfield | hfield
      · exact hfresh other (List.mem_cons_of_mem _ hother) field hfield
      · rw [List.mem_singleton.mp hfield]
        exact hfirst other hother

/-- No column of the row has, in any case, the name of one that is added. -/
def Unextended (row : Row) : Prop :=
  ∀ definition ∈ RECONCILER_EXECUTION_COLUMN_DEFINITIONS, ∀ field ∈ row, foldCase field.1 ≠ foldCase (columnName definition)

def extended (row : Row) : Row := row ++ added RECONCILER_EXECUTION_COLUMN_DEFINITIONS

theorem definitions_distinct :
    RECONCILER_EXECUTION_COLUMN_DEFINITIONS.Pairwise fun a b => foldCase (columnName a) ≠ foldCase (columnName b) := by
  decide +kernel

theorem addColumns_eq_ok : addColumns row = .ok row' ↔ Unextended row ∧ row' = extended row :=
  foldlM_addColumn definitions_distinct

end Columns

/-! ## An idle row -/

/-- The generation an idle row of version 2 stands at. -/
structure IdleAt (row : Row) (n : Int) : Prop where
  singleton : row.field "singleton_id" = some (.integer 1)
  requested : row.field "requested_generation" = some (.integer n)
  completed : row.field "completed_generation" = some (.integer n)
  safe : isSafeInteger n = true
  nonneg : 0 ≤ n
  unowned : ∀ name ∈ V2_OWNER_FIELDS, row.field name = some .null

theorem int_eq_some {row : Row} {name : String} {n : Int} : row.int name = some n ↔ row.field name = some (.integer n) := by
  unfold Row.int
  split
  · rename_i m h
    rw [h]
    simp
  · rename_i hne
    exact ⟨fun h => (by cases h), fun h => absurd h (hne n)⟩

theorem convergedGenerations_iff {row : Row} : convergedGenerations row = true ↔
    ∃ n, row.field "requested_generation" = some (.integer n) ∧ row.field "completed_generation" = some (.integer n) ∧
      isSafeInteger n = true ∧ 0 ≤ n := by
  unfold convergedGenerations
  constructor
  · intro h
    split at h
    · rename_i requested completed hrequested hcompleted
      simp only [Bool.and_eq_true, decide_eq_true_eq, beq_iff_eq] at h
      obtain ⟨⟨⟨hsafe, -⟩, hnonneg⟩, rfl⟩ := h
      exact ⟨requested, int_eq_some.mp hrequested, int_eq_some.mp hcompleted, hsafe, hnonneg⟩
    · cases h
  · rintro ⟨n, hrequested, hcompleted, hsafe, hnonneg⟩
    simp [int_eq_some.mpr hrequested, int_eq_some.mpr hcompleted, hsafe, hnonneg]

theorem assertIdleRows_eq_ok {rows : List Row} : assertIdleRows rows = .ok () ↔ ∃ row n, rows = [row] ∧ IdleAt row n := by
  constructor
  · intro h
    unfold assertIdleRows at h
    split at h
    · rename_i row
      split at h
      · cases h
      · rename_i hsingleton
        split at h
        · cases h
        · rename_i hconverged
          split at h
          · cases h
          · rename_i howners
            obtain ⟨n, hrequested, hcompleted, hsafe, hnonneg⟩ := convergedGenerations_iff.mp (by simpa using hconverged)
            refine ⟨row, n, rfl, by simpa using hsingleton, hrequested, hcompleted, hsafe, hnonneg, fun name hname => ?_⟩
            by_contra hne
            exact howners (List.any_eq_true.mpr ⟨name, hname, by simpa using hne⟩)
    · cases h
  · rintro ⟨row, n, rfl, hidle⟩
    have hconverged : convergedGenerations row ≠ false := by
      rw [convergedGenerations_iff.mpr ⟨n, hidle.requested, hidle.completed, hidle.safe, hidle.nonneg⟩]
      simp
    have howners : ¬(V2_OWNER_FIELDS.any fun name => row.field name != some .null) = true := by
      intro h
      obtain ⟨name, hname, hne⟩ := List.any_eq_true.mp h
      simp [hidle.unowned name hname] at hne
    simp only [assertIdleRows, hidle.singleton, ne_eq, not_true_eq_false, if_false, hconverged, howners]
    rfl

/-- The coordinator of an idle row. -/
def idleCoordinator (n : Int) : Coordinator := ⟨n, n, none, none⟩

theorem IdleAt.wf {row : Row} {n : Int} (h : IdleAt row n) : (idleCoordinator n).WF := by
  have hsafe := h.safe
  simp only [isSafeInteger, Bool.and_eq_true, decide_eq_true_eq] at hsafe
  exact ⟨h.nonneg, Int.le_refl n, hsafe.2, (fun _ h => by cases h), (fun _ h => by cases h)⟩

/-- The added columns make it a row of version 3. -/
theorem IdleAt.decode_extended {row : Row} {n : Int} (h : IdleAt row n) (hfresh : Unextended row) :
    decode (extended row) = some (idleCoordinator n).toRow := by
  have hint : ∀ {name : String} {m : Int}, row.field name = some (.integer m) → (extended row).int name = some m :=
    fun hfield => int_eq_some.mpr (Row.field_kept hfield _)
  have hnull : ∀ name ∈ V2_OWNER_FIELDS, (extended row).field name = some .null := fun name hname =>
    Row.field_kept (h.unowned name hname) _
  have hadded : ∀ definition ∈ RECONCILER_EXECUTION_COLUMN_DEFINITIONS,
      (extended row).field (columnName definition) = (added RECONCILER_EXECUTION_COLUMN_DEFINITIONS).field (columnName definition) :=
    fun definition hdefinition => Row.field_fresh (hfresh definition hdefinition) _
  have hnames : ∀ definition ∈ RECONCILER_EXECUTION_COLUMN_DEFINITIONS,
      (added RECONCILER_EXECUTION_COLUMN_DEFINITIONS).field (columnName definition) = some .null := by decide +kernel
  have hempty : ∀ definition ∈ RECONCILER_EXECUTION_COLUMN_DEFINITIONS, (extended row).field (columnName definition) = some .null :=
    fun definition hdefinition => (hadded definition hdefinition).trans (hnames definition hdefinition)
  have hnullInt : ∀ {name : String}, (extended row).field name = some .null → (extended row).nullableInt name = some none := by
    intro name hfield
    simp [Row.nullableInt, hfield]
  have hnullText : ∀ {name : String}, (extended row).field name = some .null → (extended row).nullableText name = some none := by
    intro name hfield
    simp [Row.nullableText, hfield]
  have hcolumn : ∀ definition name : String, definition ∈ RECONCILER_EXECUTION_COLUMN_DEFINITIONS → columnName definition = name →
      (extended row).field name = some .null := fun definition _ hdefinition hname => hname ▸ hempty definition hdefinition
  simp only [decode, hint h.singleton, hint h.requested, hint h.completed,
    hnullInt (hnull "running_generation" (by decide)), hnullText (hnull "owner_token" (by decide)),
    hnullInt (hnull "owner_pid" (by decide)), hnullInt (hnull "owner_boot_epoch_ms" (by decide)),
    hnullText (hnull "owner_process_identity" (by decide)), hnullText (hnull "owner_caller_name" (by decide)),
    hnullText (hnull "owner_origin_agent" (by decide)), hnullText (hnull "owner_session_id" (by decide)),
    hnullInt (hnull "heartbeat_at_epoch_ms" (by decide)),
    hnullText (hcolumn "execution_token TEXT" "execution_token" (by decide) (by decide +kernel)),
    hnullInt (hcolumn "execution_generation INTEGER" "execution_generation" (by decide) (by decide +kernel)),
    hnullInt (hcolumn "execution_pid INTEGER" "execution_pid" (by decide) (by decide +kernel)),
    hnullText (hcolumn "execution_process_identity TEXT" "execution_process_identity" (by decide) (by decide +kernel)),
    hnullInt (hcolumn "execution_group_id INTEGER" "execution_group_id" (by decide) (by decide +kernel)),
    hnullText (hcolumn "execution_boundary_kind TEXT" "execution_boundary_kind" (by decide) (by decide +kernel)),
    hnullText (hcolumn "execution_owner_token TEXT" "execution_owner_token" (by decide) (by decide +kernel)),
    hnullText (hcolumn "execution_state TEXT" "execution_state" (by decide) (by decide +kernel))]
  rfl

/-! ## The upgrade -/

theorem tooLarge_extended {row : Row} : (extended row).tooLarge = row.tooLarge := by
  have hadded : (added RECONCILER_EXECUTION_COLUMN_DEFINITIONS).tooLarge = none := by decide
  unfold Row.tooLarge at hadded ⊢
  unfold extended
  rw [List.findSome?_append, hadded, Option.or_none]

theorem selectState_eq_ok {contents : Contents} {rows : List Row} :
    selectState contents = .ok rows ↔ contents.state = some rows ∧ ∀ row ∈ rows, row.tooLarge = none := by
  unfold selectState
  split
  · rename_i hnone
    rw [hnone]
    exact ⟨(fun h => by cases h), fun h => by cases h.1⟩
  · rename_i found hfound
    rw [hfound]
    split
    · rename_i n hlarge
      refine ⟨(fun h => by cases h), fun ⟨heq, hsmall⟩ => ?_⟩
      cases heq
      obtain ⟨row, hrow, hn⟩ := List.exists_of_findSome?_eq_some hlarge
      rw [hsmall row hrow] at hn
      cases hn
    · rename_i hsmall
      rw [List.findSome?_eq_none_iff] at hsmall
      exact ⟨fun h => (by cases h; exact ⟨rfl, hsmall⟩), fun h => by rw [Option.some.inj h.1]⟩

/-- A database of version 2 that stands idle at `n`, in `row`. -/
structure Upgradable (contents : Contents) (row : Row) (n : Int) : Prop where
  version : contents.userVersion = 2
  state : contents.state = some [row]
  small : row.tooLarge = none
  idle : IdleAt row n
  unextended : Unextended row

def upgradedContents (contents : Contents) (row : Row) : Contents :=
  { contents with userVersion := reconcilerSchemaVersion, state := some [extended row] }

theorem upgrade_eq_ok {contents upgraded : Contents} :
    upgrade contents = .ok upgraded ↔ ∃ row n, Upgradable contents row n ∧ upgraded = upgradedContents contents row := by
  have hidle : assertIdleConvergedV2State contents = .ok () ↔
      ∃ row n, contents.state = some [row] ∧ row.tooLarge = none ∧ IdleAt row n := by
    unfold assertIdleConvergedV2State
    split
    · rename_i message hselect
      refine ⟨(fun h => by cases h), ?_⟩
      rintro ⟨row, n, hstate, hsmall, -⟩
      have hok : selectState contents = .ok [row] := selectState_eq_ok.mpr ⟨hstate, by simpa using hsmall⟩
      rw [hok] at hselect
      cases hselect
    · rename_i rows hselect
      obtain ⟨hstate, hsmall⟩ := selectState_eq_ok.mp hselect
      rw [assertIdleRows_eq_ok, hstate]
      constructor
      · rintro ⟨row, n, rfl, h⟩
        exact ⟨row, n, rfl, hsmall row List.mem_cons_self, h⟩
      · rintro ⟨row, n, h, -, hidle⟩
        exact ⟨row, n, Option.some.inj h, hidle⟩
  simp only [upgrade, guard_eq_ok, bind_eq_ok, pure_eq_ok, Decidable.not_not, exists_and_left, exists_const, hidle]
  constructor
  · rintro ⟨hversion, ⟨row, hstate, hsmall, n, hidle⟩, rows, hrows, rfl⟩
    rw [hstate] at hrows
    simp only [Option.getD_some, List.mapM_cons, List.mapM_nil, bind_eq_ok, pure_eq_ok] at hrows
    obtain ⟨row', hrow', _, rfl, rfl⟩ := hrows
    obtain ⟨hfresh, rfl⟩ := addColumns_eq_ok.mp hrow'
    exact ⟨row, n, ⟨hversion, hstate, hsmall, hidle, hfresh⟩, rfl⟩
  · rintro ⟨row, n, h, rfl⟩
    refine ⟨h.version, ⟨row, h.state, h.small, n, h.idle⟩, [extended row], ?_, rfl⟩
    simp only [h.state, Option.getD_some, List.mapM_cons, List.mapM_nil, bind_eq_ok, pure_eq_ok]
    exact ⟨_, addColumns_eq_ok.mpr ⟨h.unextended, rfl⟩, _, rfl, rfl⟩

theorem Upgradable.decodes {contents : Contents} {row : Row} {n : Int} (h : Upgradable contents row n) :
    decodeRows [extended row] = some [(idleCoordinator n).toRow] := by
  simp [decodeRows, h.idle.decode_extended h.unextended]

theorem Upgradable.reads {contents : Contents} {row : Row} {n : Int} (h : Upgradable contents row n) :
    readContents (upgradedContents contents row) = .ok (idleCoordinator n).record := by
  have hselect : selectState (upgradedContents contents row) = .ok [extended row] :=
    selectState_eq_ok.mpr ⟨rfl, by simpa [tooLarge_extended] using h.small⟩
  simp only [readContents, hselect, h.decodes, Coordinator.read_toRow h.idle.wf]

/-- What a migration has written always passes its own verification. -/
theorem Upgradable.verifies {contents : Contents} {row : Row} {n : Int} (h : Upgradable contents row n) (dbPath : String) :
    verifyMigrated dbPath (.ok ()) (upgradedContents contents row) = .ok () := by
  have htables : reconcilerStateTable ∈ (upgradedContents contents row).tables := by
    simp [Contents.tables, upgradedContents]
  have hversion : (upgradedContents contents row).userVersion = reconcilerSchemaVersion := rfl
  simp only [verifyMigrated, openReadOnly, h.reads, hversion]
  simp [assertCompatibleSchema, htables, reconcilerSchemaVersion, idleCoordinator, Coordinator.record]

/-! ## A migration left alone -/

section Quiet

variable {sight : MigrationSight}

/-- Told that nothing runs, on a checkpointed database that stands idle at `n`. -/
structure Migratable (dbPath : String) (sight : MigrationSight) (row : Row) (n : Int) : Prop where
  confirmed : sight.confirmedNoLiveExecution = true
  checkpointed : assertRegularCheckpointedDatabase dbPath sight = .ok ()
  upgradable : Upgradable sight.before row n

theorem Migratable.migrates {dbPath : String} {row : Row} {n : Int} (h : Migratable dbPath sight row n)
    (hquiet : sight.Quiet) :
    migrateReconcilerV2Database dbPath sight = (.ok .migrated, upgradedContents sight.before row) := by
  have hupgrade : upgrade sight.before = .ok (upgradedContents sight.before row) :=
    upgrade_eq_ok.mpr ⟨row, n, h.upgradable, rfl⟩
  simp [migrateReconcilerV2Database, h.confirmed, h.checkpointed, hquiet.connection, h.upgradable.version, hquiet.begin',
    hquiet.locked, hupgrade, hquiet.commit, hquiet.later, hquiet.reopened, h.upgradable.verifies, reconcilerSchemaVersion]

/-- Any other database is left as it was. -/
theorem MigrationSight.Quiet.migratable_or_kept (dbPath : String) (hquiet : sight.Quiet) :
    (∃ row n, Migratable dbPath sight row n) ∨ ((migrateReconcilerV2Database dbPath sight).1 ≠ .ok .migrated ∧
      (migrateReconcilerV2Database dbPath sight).2 = sight.before) := by
  unfold migrateReconcilerV2Database
  simp only [hquiet.connection, hquiet.begin', hquiet.locked, hquiet.commit, hquiet.later, hquiet.reopened]
  by_cases hconfirmed : sight.confirmedNoLiveExecution = false
  · exact .inr (by simp [hconfirmed])
  rw [if_neg hconfirmed]
  cases hchecked : assertRegularCheckpointedDatabase dbPath sight with
  | error message => exact .inr (by simp)
  | ok u =>
    by_cases hcurrent : sight.before.userVersion = reconcilerSchemaVersion
    · simp only [hcurrent, if_true]
      cases readContents sight.before <;> exact .inr (by simp)
    simp only [hcurrent, if_false]
    by_cases htwo : sight.before.userVersion ≠ 2
    · exact .inr (by simp [htwo])
    simp only [htwo, if_false]
    cases hupgrade : upgrade sight.before with
    | error message => exact .inr (by simp)
    | ok upgraded =>
      obtain ⟨row, n, h, -⟩ := upgrade_eq_ok.mp hupgrade
      exact .inl ⟨row, n, by simpa using hconfirmed, hchecked, h⟩

/-- Left alone, the migration goes through exactly on a migratable database, whose row it makes the
    idle coordinator's at the same generation; otherwise the database is as it was. -/
theorem v2_migration_exact (dbPath : String) (hquiet : sight.Quiet) :
    ((migrateReconcilerV2Database dbPath sight).1 = .ok .migrated ↔ ∃ row n, Migratable dbPath sight row n) ∧
      (∀ row n, Migratable dbPath sight row n → ∃ rows, (migrateReconcilerV2Database dbPath sight).2.userVersion = reconcilerSchemaVersion ∧
        (migrateReconcilerV2Database dbPath sight).2.state = some rows ∧ decodeRows rows = some [(idleCoordinator n).toRow] ∧
        readContents (migrateReconcilerV2Database dbPath sight).2 = .ok (idleCoordinator n).record) ∧
      ((migrateReconcilerV2Database dbPath sight).1 ≠ .ok .migrated → (migrateReconcilerV2Database dbPath sight).2 = sight.before) := by
  have hback := hquiet.migratable_or_kept dbPath
  refine ⟨⟨fun h => ?_, ?_⟩, fun row n h => ?_, fun hne => ?_⟩
  · rcases hback with hmigratable | ⟨hne, -⟩
    · exact hmigratable
    · exact absurd h hne
  · rintro ⟨row, n, h⟩
    rw [h.migrates hquiet]
  · rw [h.migrates hquiet]
    exact ⟨[extended row], rfl, rfl, h.upgradable.decodes, h.upgradable.reads⟩
  · rcases hback with ⟨row, n, h⟩ | ⟨-, hkept⟩
    · exact absurd (by rw [h.migrates hquiet]) hne
    · exact hkept

end Quiet

/-! ## After it -/

/-- A call never takes a request back. -/
theorem Move.requested_le {c c' : Coordinator} {call : Call} (h : Move c call c') : c.requested ≤ c'.requested := by
  cases h with
  | coalesce _ => exact Int.le_of_lt (Int.lt_succ c.requested)
  | acquire _ => exact Int.le_of_lt (Int.lt_succ c.requested)
  | _ => exact Int.le_refl _

theorem nullableInt_encoded {row : Row} {name : String} {value : Option Int} (h : row.field name = some (intValue value)) :
    row.nullableInt name = some value := by
  unfold Row.nullableInt
  rw [h]
  cases value <;> rfl

theorem nullableText_encoded {row : Row} {name : String} {value : Option String} (h : row.field name = some (textValue value)) :
    row.nullableText name = some value := by
  unfold Row.nullableText
  rw [h]
  cases value <;> rfl

theorem decode_encode (row : RawStateRow) : decode (encode row) = some row := by
  have hint : ∀ (name : String) (n : Int), (encode row).field name = some (.integer n) → (encode row).int name = some n :=
    fun _ _ hfield => int_eq_some.mpr hfield
  have hnull : ∀ (name : String) (value : Option Int), (encode row).field name = some (intValue value) →
      (encode row).nullableInt name = some value := fun _ _ => nullableInt_encoded
  have htext : ∀ (name : String) (value : Option String), (encode row).field name = some (textValue value) →
      (encode row).nullableText name = some value := fun _ _ => nullableText_encoded
  simp only [decode, hint "singleton_id" row.singletonId rfl, hint "requested_generation" row.requestedGeneration rfl,
    hint "completed_generation" row.completedGeneration rfl, hnull "running_generation" row.runningGeneration rfl,
    htext "owner_token" row.ownerToken rfl, hnull "owner_pid" row.ownerPid rfl,
    hnull "owner_boot_epoch_ms" row.ownerBootEpochMs rfl, htext "owner_process_identity" row.ownerProcessIdentity rfl,
    htext "owner_caller_name" row.ownerCallerName rfl, htext "owner_origin_agent" row.ownerOriginAgent rfl,
    htext "owner_session_id" row.ownerSessionId rfl, hnull "heartbeat_at_epoch_ms" row.heartbeatAtEpochMs rfl,
    htext "execution_token" row.executionToken rfl, hnull "execution_generation" row.executionGeneration rfl,
    hnull "execution_pid" row.executionPid rfl, htext "execution_process_identity" row.executionProcessIdentity rfl,
    hnull "execution_group_id" row.executionGroupId rfl, htext "execution_boundary_kind" row.executionBoundaryKind rfl,
    htext "execution_owner_token" row.executionOwnerToken rfl, htext "execution_state" row.executionState rfl]
  rfl

theorem tooLarge_eq_none {row : Row} (h : ∀ field ∈ row, ∀ n, field.2 = .integer n → isSafeInteger n = true) : row.tooLarge = none := by
  unfold Row.tooLarge
  rw [List.findSome?_eq_none_iff]
  intro field hfield
  split
  · rename_i n hvalue
    rw [if_pos (h field hfield n hvalue)]
  · rfl

/-- No integer of a well-formed row is too large. -/
theorem tooLarge_encode {c : Coordinator} (hc : c.WF) : (encode c.toRow).tooLarge = none := by
  have hsafe : ∀ m : Int, 0 ≤ m → m ≤ maxSafeInteger → isSafeInteger m = true := by
    intro m h0 hmax
    simp only [isSafeInteger, Bool.and_eq_true, decide_eq_true_eq]
    exact ⟨by unfold maxSafeInteger; omega, hmax⟩
  have hint : ∀ value : Option Int, (∀ m, value = some m → 0 ≤ m ∧ m ≤ maxSafeInteger) → ∀ n, intValue value = .integer n →
      isSafeInteger n = true := by
    intro value hvalue n h
    cases value with
    | none => cases h
    | some m =>
      cases h
      exact hsafe n (hvalue n rfl).1 (hvalue n rfl).2
  have htext : ∀ (value : Option String) n, textValue value = .integer n → isSafeInteger n = true := by
    intro value n h
    cases value <;> cases h
  have h0 := hc.completedNonneg
  have hle := hc.completedLe
  have hmax := hc.requestedSafe
  have howner : ∀ {f : Owner → Int} m, c.owner.map f = some m → (∀ o, c.owner = some o → 0 ≤ f o ∧ f o ≤ maxSafeInteger) →
      0 ≤ m ∧ m ≤ maxSafeInteger := by
    intro f m h hf
    obtain ⟨o, ho, rfl⟩ := Option.map_eq_some_iff.mp h
    exact hf o ho
  have hexecution : ∀ {f : ActiveExecutionRecord → Int} m, c.execution.map f = some m →
      (∀ e, c.execution = some e → 0 ≤ f e ∧ f e ≤ maxSafeInteger) → 0 ≤ m ∧ m ≤ maxSafeInteger := by
    intro f m h hf
    obtain ⟨e, he, rfl⟩ := Option.map_eq_some_iff.mp h
    exact hf e he
  have hpid : ∀ e, c.execution = some e → 0 ≤ e.pid ∧ e.pid ≤ maxSafeInteger := by
    intro e he
    have h := (isPositiveInteger_some e.pid).mp (hc.executionOk e he).1.pid
    omega
  refine tooLarge_eq_none fun field hfield => ?_
  simp only [encode, List.mem_cons, List.not_mem_nil, or_false] at hfield
  rcases hfield with rfl | rfl | rfl | rfl | rfl | rfl | rfl | rfl | rfl | rfl | rfl | rfl | rfl | rfl | rfl | rfl | rfl | rfl |
    rfl | rfl
  · exact fun n h => by cases h; rfl
  · exact fun n h => by cases h; exact hsafe _ (Int.le_trans h0 hle) hmax
  · exact fun n h => by cases h; exact hsafe _ h0 (Int.le_trans hle hmax)
  · refine hint _ fun m h => howner m h fun o ho => ?_
    obtain ⟨-, hlow, hhigh⟩ := hc.ownerOk o ho
    omega
  · exact htext _
  · refine hint _ fun m h => howner m h fun o ho => ?_
    have h := (isPositiveInteger_some o.pid).mp (hc.ownerOk o ho).1.pid
    omega
  · exact hint _ fun m h => howner m h fun o ho => (isSafeNonNegativeInteger_some o.bootEpochMs).mp (hc.ownerOk o ho).1.boot
  · exact htext _
  · exact htext _
  · exact htext _
  · exact htext _
  · exact hint _ fun m h => howner m h fun o ho => (isSafeNonNegativeInteger_some o.heartbeat).mp (hc.ownerOk o ho).1.heartbeat
  · exact htext _
  · refine hint _ fun m h => hexecution m h fun e he => ?_
    obtain ⟨-, hlow, o, ho, hhigh, -⟩ := hc.executionOk e he
    obtain ⟨-, -, hrunning⟩ := hc.ownerOk o ho
    omega
  · exact hint _ fun m h => hexecution m h hpid
  · exact htext _
  · refine hint _ fun m h => hexecution m h fun e he => ?_
    rw [(hc.executionOk e he).1.leader]
    exact hpid e he
  · exact htext _
  · exact htext _
  · exact htext _

/-- The file whose table holds `db`. -/
def Contents.holding (contents : Contents) (db : Db) : Contents := { contents with state := some (db.map encode) }

theorem readContents_holding {c : Coordinator} (hc : c.WF) (contents : Contents) :
    readContents (contents.holding [c.toRow]) = .ok c.record := by
  have hselect : selectState (contents.holding [c.toRow]) = .ok [encode c.toRow] :=
    selectState_eq_ok.mpr ⟨rfl, by simpa using tooLarge_encode hc⟩
  have hrows : decodeRows [encode c.toRow] = some [c.toRow] := by simp [decodeRows, decode_encode]
  simp only [readContents, hselect, hrows, Coordinator.read_toRow hc]

/-- Calls keep the table good and count no less. -/
theorem calls_count {n : Int} {s t : Shared} {calls : List Call} (h : Steps callMachine s calls t)
    (hs : ∃ c : Coordinator, c.WF ∧ s.db = [c.toRow] ∧ n ≤ c.requested) (hgood : s.Good) :
    t.Good ∧ ∃ c : Coordinator, c.WF ∧ t.db = [c.toRow] ∧ n ≤ c.requested := by
  induction h with
  | nil => exact ⟨hgood, hs⟩
  | @snoc calls u v call _ hstep ih =>
    obtain ⟨hu, c, hc, hdb, hn⟩ := ih
    have hv := good_step hu hstep
    obtain ⟨-, rfl⟩ := hstep
    refine ⟨hv, ?_⟩
    obtain ⟨c', hc', hdb', -, -⟩ := id hv
    have hdb' : call.commit u.db = [c'.toRow] := hdb'
    refine ⟨c', hc', hdb', ?_⟩
    rw [hdb] at hdb'
    have hrequested : ∀ d : Coordinator, [d.toRow] = [c'.toRow] → d.requested = c'.requested := fun d h =>
      congrArg RawStateRow.requestedGeneration (List.cons.inj h).1
    rcases commit_cases hc call with h | ⟨d, hmove, h⟩
    · rw [← hrequested c (h.symm.trans hdb')]
      exact hn
    · rw [← hrequested d (h.symm.trans hdb')]
      exact Int.le_trans hn (Move.requested_le hmove)

/-- After a migration that was left alone every sequence of coordinator calls finds a table that
    opens, reads and counts what version 2 counted, and a second migration leaves it alone. -/
theorem v2_generations_kept {sight : MigrationSight} (dbPath : String) (hquiet : sight.Quiet)
    (hmigrated : (migrateReconcilerV2Database dbPath sight).1 = .ok .migrated) {rows : List Row} {db : Db}
    (hstate : (migrateReconcilerV2Database dbPath sight).2.state = some rows) (hdb : decodeRows rows = some db)
    {calls : List Call} {s : Shared} (hcalls : Steps callMachine ⟨[], db⟩ calls s) :
    ∃ row state, s.db = [row] ∧ readReconcilerState s.db = .ok state ∧ RowInvariant row ∧
      (∀ before n, sight.before.state = some [before] → before.int "requested_generation" = some n → n ≤ row.requestedGeneration) ∧
      assertCompatibleSchema dbPath ⟨(migrateReconcilerV2Database dbPath sight).2.userVersion,
        (migrateReconcilerV2Database dbPath sight).2.tables, s.db⟩ = .ok () ∧
      ∀ again : MigrationSight, again.confirmedNoLiveExecution = true → assertRegularCheckpointedDatabase dbPath again = .ok () →
        again.connection = .ok () → again.before = (migrateReconcilerV2Database dbPath sight).2.holding s.db →
        migrateReconcilerV2Database dbPath again = (.ok .alreadyCurrent, again.locked) := by
  obtain ⟨before, n, hmigratable⟩ : ∃ before n, Migratable dbPath sight before n :=
    (hquiet.migratable_or_kept dbPath).resolve_right fun hkept => hkept.1 hmigrated
  have hmigrates := hmigratable.migrates hquiet
  have hversion : (migrateReconcilerV2Database dbPath sight).2.userVersion = reconcilerSchemaVersion := by
    rw [hmigrates]
    rfl
  have hextended : (migrateReconcilerV2Database dbPath sight).2.state = some [extended before] := by
    rw [hmigrates]
    rfl
  rw [hstate] at hextended
  cases hextended
  have hdecodes := hmigratable.upgradable.decodes
  rw [hdb] at hdecodes
  cases hdecodes
  have hidle := hmigratable.upgradable.idle
  have hgood : Shared.Good ⟨[], [(idleCoordinator n).toRow]⟩ :=
    ⟨idleCoordinator n, hidle.wf, rfl, (fun _ h => by cases h), fun _ h => by cases h⟩
  obtain ⟨-, c, hc, hs, hn⟩ := calls_count hcalls ⟨idleCoordinator n, hidle.wf, rfl, Int.le_refl n⟩ hgood
  refine ⟨c.toRow, c.record, hs, by rw [hs]; exact Coordinator.read_toRow hc, hc.rowInvariant, fun found m hfound hm => ?_, ?_,
    fun again hconfirmed hchecked hconnection hbefore => ?_⟩
  · rw [hmigratable.upgradable.state] at hfound
    cases hfound
    rw [int_eq_some.mpr hidle.requested] at hm
    cases hm
    exact hn
  · have htable : reconcilerStateTable ∈ (migrateReconcilerV2Database dbPath sight).2.tables := by simp [Contents.tables, hstate]
    simp [assertCompatibleSchema, hversion, htable]
  · have hcurrent : again.before.userVersion = reconcilerSchemaVersion := by
      rw [hbefore]
      exact hversion
    have hread : readContents again.before = .ok c.record := by
      rw [hbefore, hs]
      exact readContents_holding hc _
    simp only [migrateReconcilerV2Database, hconfirmed, hchecked, hconnection, hcurrent, hread]
    rfl

/-! ## A converged database of version 2 -/

def convergedRow : Row :=
  [("singleton_id", .integer 1), ("requested_generation", .integer 4), ("completed_generation", .integer 4)] ++
    V2_OWNER_FIELDS.map fun name => (name, .null)

def convergedSight : MigrationSight where
  confirmedNoLiveExecution := true
  entry := some ⟨true, false, 8192⟩
  sidecar := fun _ => false
  connection := .ok ()
  before := ⟨2, some [convergedRow], []⟩
  begin' := .ok ()
  locked := ⟨2, some [convergedRow], []⟩
  commit := .ok ()
  later := id
  reopened := .ok ()

theorem convergedSight_quiet : convergedSight.Quiet := ⟨rfl, rfl, rfl, rfl, fun _ => rfl, rfl⟩

theorem convergedSight_migrates : (migrateReconcilerV2Database "/state/orders/reconciler.sqlite" convergedSight).1 = .ok .migrated := by
  decide +kernel

theorem v2_migration_exact_converged : ∃ row n, Migratable "/state/orders/reconciler.sqlite" convergedSight row n :=
  (v2_migration_exact "/state/orders/reconciler.sqlite" convergedSight_quiet).1.mp convergedSight_migrates

/-- One registration after it is counted on from the fourth generation. -/
theorem v2_generations_kept_registered : ∃ (s : Shared) (row : RawStateRow) (state : ReconcilerStateRecord), s.db = [row] ∧
    readReconcilerState s.db = .ok state ∧ RowInvariant row ∧ 4 ≤ row.requestedGeneration := by
  have hrows : ((migrateReconcilerV2Database "/state/orders/reconciler.sqlite" convergedSight).2.state.bind fun rows =>
      decodeRows rows) = some [(idleCoordinator 4).toRow] := by decide +kernel
  obtain ⟨rows, hstate, hdb⟩ := Option.bind_eq_some_iff.mp hrows
  let call : Call := .register ⟨"owner-a", 100, 1, "birth-100", "cli", "human", none, 5⟩ fun _ => ⟨fun _ => false, fun _ => none⟩
  have hstep : callMachine.step ⟨[], [(idleCoordinator 4).toRow]⟩ call
      ⟨call.newOwner [(idleCoordinator 4).toRow] ++ [], call.commit [(idleCoordinator 4).toRow]⟩ :=
    ⟨⟨by decide +kernel, by decide +kernel⟩, rfl⟩
  obtain ⟨row, state, hrow, hread, hinvariant, hcounted, -⟩ := v2_generations_kept "/state/orders/reconciler.sqlite"
    convergedSight_quiet convergedSight_migrates hstate hdb (.single hstep)
  exact ⟨_, row, state, hrow, hread, hinvariant, hcounted convergedRow 4 rfl (by decide +kernel)⟩

end GitCommitsPush.Reconciliation.SchemaMigration
