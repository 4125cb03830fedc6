/-
  GitCommitsPush.Bridge.CommitJobs — the batch step of the bridge
  (`handleTurnlockDelegation` of `entrypoints/turnlock-to-llm-bridge.ts`,
  `core/commit-job-response.ts`, `mergeCommitMessageRepairs`, `turnlock/job-result-store.ts`,
  the result schemas of `config/state-schema.ts`).

  A prompt is any text: its payload is a value of `JSON.parse` whose type nothing checks, so
  what is read of it may be missing. The jobs run side by side; each goes on when what it
  waits for is answered, in any order and in any way. What the LLM is asked has no part here:
  it may answer anything.
-/

import GitCommitsPush.Lib.JsonSchema
import GitCommitsPush.Lib.Runs
import GitCommitsPush.Publication.Diagnostics

namespace GitCommitsPush.Bridge

open GitCommitsPush.Lib.JsText
open GitCommitsPush.Lib.JsonDocument (parse stringify)
open GitCommitsPush.Lib.JsonSchema
open GitCommitsPush.Lib.JsonTree
open GitCommitsPush.Lib.Runs
open GitCommitsPush.Publication (sanitizeSensitiveDiagnostic)

/-! ## Schemas -/

def commitShape (isBreaking : Field) : List (String × Field) :=
  [("type", required string), ("scope", optional (nullable string)), ("description", required string),
    ("body", optional (nullable string)), ("isBreaking", isBreaking)]

def planShape (commit : Schema) : List (String × Field) := [("commit", required commit), ("files", required (array string))]

def commitMessageResultSchema : Schema := object (commitShape (defaulted boolean (.bool false)))

def commitPlanResultSchema : Schema := object (planShape commitMessageResultSchema)

/-- `z.array(commitPlanResultSchema).min(1)`. -/
def nonEmptyCommitPlanResultListSchema : Schema
  | .array [] => none
  | value => array commitPlanResultSchema value

def commitJobResultSchema : Schema :=
  union (object [("success", required (literal true)), ("id", required string), ("commits", required (array commitPlanResultSchema))])
    (object [("success", required (literal false)), ("id", required string), ("error", required string)])

def natural : Schema
  | .number (some integer) => if 0 ≤ integer then some (.number (some integer)) else none
  | _ => none

def repairCommitSchema : Schema := strict (commitShape (required boolean))

def repairItemSchema : Schema := strict [("planIndex", required natural), ("commit", required repairCommitSchema)]

/-! ## Responses -/

/-- What the engine and the libraries say and do that is not of the repository: numerals, the
    texts of their errors, and the prompt that is made of a payload, or what making it throws. -/
structure Environment where
  integerOf : List Char → Option Int
  numeralOf : Option Int → List Char
  syntaxError : String → String
  typeError : JsonValue → String
  schemaError : JsonValue → String
  userPrompt : JsonValue → Except String String

def hasMode (payload : JsonValue) (mode : String) : Bool := match payload.field "mode" with
  | some (.string found) => found = mode
  | _ => false

def isNull : JsonValue → Bool
  | .null => true
  | _ => false

section Repairs

variable (env : Environment) (payload : JsonValue)

/-- `payload.validationErrors.map((error) => error.planIndex)`, without `undefined`. -/
def requestedIndexes : Except String (List JsonValue) := match payload.field "validationErrors" with
  | some (.array errors) => if errors.any isNull then .error (env.typeError payload) else .ok (errors.filterMap (·.field "planIndex"))
  | _ => .error (env.typeError payload)

def integer : JsonValue → Option Int
  | .number found => found
  | _ => none

/-- No index that is not an integer is the index of an answer. -/
def sortedIndexes (indexes : List JsonValue) : Option (List Int) :=
  (indexes.mapM integer).map fun integers => integers.eraseDups.mergeSort (· ≤ ·)

/-- `payload.rejectedPlans[planIndex]`; a character of a string has no fields. -/
def rejectedPlanAt (planIndex : Int) : Except String (Option JsonValue) := match payload.field "rejectedPlans" with
  | none | some .null => .error (env.typeError payload)
  | some (.array plans) => .ok plans[planIndex.toNat]?
  | some (.object fields) => .ok (fields.lookup (toString planIndex))
  | some _ => .ok none

/-- `===` of values of which one is a string, a flag or null. -/
def identical : JsonValue → JsonValue → Bool
  | .null, .null => true
  | .bool a, .bool b => a = b
  | .string a, .string b => a = b
  | _, _ => false

/-- A field of a commit; `undefined` is no value. -/
def identicalField (name : String) (commit rejected : JsonValue) : Bool := match commit.field name, rejected.field name with
  | some a, some b => identical a b
  | _, _ => false

def keepsProtectedFields (commit : JsonValue) : Option JsonValue → Bool
  | none => false
  | some rejected => identicalField "type" commit rejected &&
      identical ((commit.field "scope").getD .null) ((rejected.field "scope").getD .null) &&
      identicalField "isBreaking" commit rejected

/-- The index and the commit of an item of the answer. -/
def repairIndex (repair : JsonValue) : Int := ((repair.field "planIndex").bind integer).getD 0

def repairCommit (repair : JsonValue) : JsonValue := (repair.field "commit").getD .null

def checkRepairs : List JsonValue → Except String Unit
  | [] => .ok ()
  | repair :: repairs => do
    let rejected ← rejectedPlanAt env payload (repairIndex repair)
    if keepsProtectedFields (repairCommit repair) (rejected.bind (·.field "commit")) then checkRepairs repairs
    else .error "Commit-message repair changed protected semantic fields."

/-- `[...plan.files]`. -/
def spread : Option JsonValue → Except String (List JsonValue)
  | some (.array items) => .ok items
  | some (.string text) => .ok (text.toList.map fun c => .string (String.singleton c))
  | _ => .error (env.typeError payload)

/-- The last repair of a plan. -/
def repairOf (repairs : List JsonValue) (planIndex : Nat) : Option JsonValue :=
  (repairs.reverse.find? fun repair => repairIndex repair = planIndex).map repairCommit

def mergePlan (repairs : List JsonValue) (planIndex : Nat) (plan : JsonValue) : Except String JsonValue := do
  if isNull plan then .error (env.typeError payload)
  else
    let files ← spread env payload (plan.field "files")
    let commit := (repairOf repairs planIndex).or (plan.field "commit")
    return .object ((commit.map fun commit => ("commit", commit)).toList ++ [("files", .array files)])

def mergePlans (repairs : List JsonValue) : Nat → List JsonValue → Except String (List JsonValue)
  | _, [] => .ok []
  | planIndex, plan :: plans => do
    let merged ← mergePlan env payload repairs planIndex plan
    let others ← mergePlans repairs (planIndex + 1) plans
    return merged :: others

def mergeCommitMessageRepairs (response : JsonValue) : Except String (List JsonValue) :=
  match array repairItemSchema response with
  | some (.array repairs) => do
    let requested ← requestedIndexes env payload
    if sortedIndexes requested ≠ some ((repairs.map repairIndex).mergeSort (· ≤ ·)) then
      .error "Commit-message repair response does not match the requested plan indexes."
    else
      checkRepairs env payload repairs
      match payload.field "rejectedPlans" with
      | some (.array plans) => mergePlans env payload repairs 0 plans
      | _ => .error (env.typeError payload)
  | _ => .error (env.schemaError response)

def parseCommitJobResponse (response : String) : Except String (List JsonValue) :=
  match parse env.integerOf response with
  | none => .error (env.syntaxError response)
  | some (.array (item :: items)) =>
    if hasMode payload "repair-commit-messages" then mergeCommitMessageRepairs env payload (.array (item :: items))
    else match nonEmptyCommitPlanResultListSchema (.array (item :: items)) with
      | some (.array commits) => .ok commits
      | _ => .error (env.schemaError (.array (item :: items)))
  | some _ => .error "LLM returned an invalid response: expected a non-empty JSON array."

end Repairs

/-! ## The batch -/

/-- A job of an authorised manifest. -/
structure TurnlockBatchJob where
  id : String
  prompt : String
  resultPath : String
  valid : id ≠ "" ∧ resultPath ≠ ""

def successResult (id : String) (commits : List JsonValue) : JsonValue :=
  .object [("success", .bool true), ("id", .string id), ("commits", .array commits)]

def errorResult (id : String) (message : String) : JsonValue :=
  .object [("success", .bool false), ("id", .string id),
    ("error", .string ("LLM Fatal Error: " ++ sanitizeSensitiveDiagnostic message))]

/-- What a job waits for. -/
inductive Stage where
  | beginning
  /-- `resolveAuthToken`. -/
  | resolving (payload : JsonValue)
  /-- `invokeLlm`. -/
  | invoking (payload : JsonValue) (attempt : Nat)
  | settled

/-- A job with what it has done: the calls of the LLM, its responses, the results written. -/
structure JobRun where
  stage : Stage
  calls : Nat
  responses : List String
  results : List JsonValue

section Batch

variable (env : Environment)

/-- `JSON.stringify(result, null, 2)`. -/
def resultText (result : JsonValue) : String := String.ofList (stringify env.numeralOf 0 result)

/-- The job up to what it waits for next, and the result it writes on the way; an answer is a
    value or what was thrown. -/
def advance (job : TurnlockBatchJob) (answer : Except String String) (run : JobRun) : JobRun × Option JsonValue :=
  match run.stage, answer with
  | .beginning, _ => match parse env.integerOf job.prompt with
    | none => ({ run with stage := .settled }, some (errorResult job.id (env.syntaxError job.prompt)))
    | some payload =>
      if isNull payload then ({ run with stage := .settled }, some (errorResult job.id (env.typeError payload)))
      else if hasMode payload "checkpoint-push-only" then ({ run with stage := .settled }, some (successResult job.id []))
      else ({ run with stage := .resolving payload }, none)
  | .resolving _, .error message => ({ run with stage := .settled }, some (errorResult job.id message))
  | .resolving payload, .ok _ => match env.userPrompt payload with
    | .error message => ({ run with stage := .settled }, some (errorResult job.id message))
    | .ok _ => ({ run with stage := .invoking payload 0, calls := run.calls + 1 }, none)
  | .invoking _ _, .error message => ({ run with stage := .settled }, some (errorResult job.id message))
  | .invoking payload attempt, .ok response =>
    let answered := { run with responses := run.responses ++ [response] }
    match parseCommitJobResponse env payload response with
    | .ok commits => ({ answered with stage := .settled }, some (successResult job.id commits))
    | .error message =>
      if attempt < 1 then ({ answered with stage := .invoking payload (attempt + 1), calls := run.calls + 1 }, none)
      else ({ answered with stage := .settled }, some (errorResult job.id message))
  | .settled, _ => (run, none)

structure Batch where
  runs : List JobRun
  files : String → Option String

/-- The job at the place gets its answer; a result it writes is the whole file. -/
def deliver (job : TurnlockBatchJob) (i : Nat) (run : JobRun) (answer : Except String String) (s : Batch) : Batch :=
  let moved := advance env job answer run
  { runs := s.runs.set i { moved.1 with results := run.results ++ moved.2.toList }
    files := fun path => match moved.2 with
      | some result => if path = job.resultPath then some (resultText env result) else s.files path
      | none => s.files path }

/-- The jobs of a manifest, from the start of the batch step. -/
def batch (jobs : List TurnlockBatchJob) : Machine Batch (Nat × Except String String) where
  init s := s.runs = jobs.map fun _ => ⟨.beginning, 0, [], []⟩
  step s label s' := ∃ job run, jobs[label.1]? = some job ∧ s.runs[label.1]? = some run ∧ (run.stage matches .settled) = false ∧
    s' = deliver env job label.1 run label.2 s

/-- `Promise.all` is done when every job is. -/
def Batch.Done (s : Batch) : Prop := ∀ run ∈ s.runs, run.stage = .settled

end Batch

end GitCommitsPush.Bridge
