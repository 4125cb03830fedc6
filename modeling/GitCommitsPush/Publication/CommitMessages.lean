/-
  GitCommitsPush.Publication.CommitMessages — the check of a planned commit message
  (`core/validators/commit-message-validator.ts`) and the feedback it gives the planner
  (`core/commit-message-validation.ts`).
-/

import GitCommitsPush.Lib.Regex
import GitCommitsPush.Publication.QueueRetry

namespace GitCommitsPush.Publication

open GitCommitsPush.Lib.JsText
open GitCommitsPush.Lib.Regex

/-! ## `validateCommitMessage` -/

def VALID_TYPES : List String :=
  ["feat", "fix", "docs", "style", "refactor", "perf", "test", "build", "ci", "chore", "revert"]

/-- `^(\w+)(?:\(([^)]+)\))?(!)?\s*:\s(.+)$`. -/
def COMMIT_MSG_REGEX : Re :=
  seqAll [.atStart, .group 1 (plus isWord),
    optional (seqAll [lit "(", .group 2 (plus fun c => c != ')'.toNat), lit ")"]), optional (.group 3 (lit "!")),
    star isSpaceCode, lit ":", .one isSpaceCode, .group 4 (.rep anyChar 1 none true), .atEnd]

def MAX_COMMIT_SUBJECT_LENGTH : Nat := 72

/-- `^(one|of|these)\b` under the flag `i`. -/
def startsWithWord (wordList : List String) : Re := seqAll [.atStart, altAll (wordList.map litI), .wordBoundary isWord]

def PAST_TENSE_PATTERN : Re :=
  startsWithWord ["added", "fixed", "removed", "updated", "changed", "deleted", "created", "modified", "moved", "renamed",
    "resolved", "refactored", "implemented", "improved"]

def GERUND_PATTERN : Re :=
  startsWithWord ["adding", "fixing", "removing", "updating", "changing", "deleting", "creating", "modifying", "moving",
    "renaming", "resolving", "refactoring", "implementing", "improving"]

def VAGUE_DESCRIPTIONS : List String :=
  ["fix bug", "fix bugs", "bug fix", "bugfix", "updates", "update", "stuff", "things", "changes", "change", "wip", "temp",
    "misc", "minor"]

/-- The type and description of a subject, when it has the form. -/
def parseSubject (subject : String) : Option (String × String) :=
  (exec COMMIT_MSG_REGEX (units subject)).bind fun m =>
    match capture 1 m.2, capture 4 m.2 with
    | some type, some description => some (stringOfUnits type, stringOfUnits description)
    | _, _ => none

def firstLine (s : String) : String := (splitString '\n' s).headD ""

/-- What is wrong with a subject of the right form. -/
def subjectErrors (subject type description : String) : List String :=
  (if VALID_TYPES.contains type then []
    else ["Type \"" ++ type ++ "\" invalide. Types autorisés: " ++ joinStrings ", " VALID_TYPES]) ++
  (if description.toList.head?.any (fun c => inRange 'A' 'Z' c.toNat) then
    ["La description ne doit pas commencer par une majuscule après le deux-points"] else []) ++
  (if endsWith description "." then ["La description ne doit pas se terminer par un point"] else []) ++
  (if length16 subject > MAX_COMMIT_SUBJECT_LENGTH then
    ["Subject line trop long: " ++ toString (length16 subject) ++ "/" ++ toString MAX_COMMIT_SUBJECT_LENGTH ++
      " caractères max"] else []) ++
  (if test PAST_TENSE_PATTERN (units description) then
    ["Utiliser l'impératif présent (add, fix, remove) — pas le passé (added, fixed, removed)"] else []) ++
  (if test GERUND_PATTERN (units description) then
    ["Utiliser l'impératif présent (add, fix, remove) — pas le gérondif (adding, fixing, removing)"] else []) ++
  (if VAGUE_DESCRIPTIONS.contains (toLowerCase description) then
    ["Description trop vague: \"" ++ description ++ "\". Être spécifique sur ce qui a changé"] else [])

/-- The errors of a message; it is valid when there is none. -/
def validateCommitMessage (message : String) : List String :=
  let trimmed := trimString message
  if trimmed = "" then ["Message de commit vide"]
  else
    let subject := trimString (firstLine trimmed)
    match parseSubject subject with
    | none => ["Format invalide. Attendu: <type>(<scope>): <description>"]
    | some (type, description) => subjectErrors subject type description

example : validateCommitMessage "feat(core)!: add the scanner" = [] := by decide +kernel

/-! ## `collectCommitMessageValidationErrors` -/

def validationError (planIndex : Nat) (subject errorMessage : String) : FeedbackError :=
  let exceedsSubjectLimit := startsWith errorMessage "Subject line trop long:"
  { kind := .validation
    message := errorMessage ++ " on \"" ++ subject ++ "\""
    resolutionHint := some "Rewrite only this commit message while preserving its file list and intent."
    planIndex := some planIndex
    rule := some (if exceedsSubjectLimit then .subjectMaxLength else .commitMessage)
    rejectedSubject := some subject
    actualLength := if exceedsSubjectLimit then some (length16 subject) else none
    maximumLength := if exceedsSubjectLimit then some MAX_COMMIT_SUBJECT_LENGTH else none }

def collectFrom (planIndex : Nat) : List CommitPlan → List FeedbackError
  | [] => []
  | plan :: plans =>
    let message := formatConventionalCommit plan.commit
    (validateCommitMessage message).map (validationError planIndex (firstLine message)) ++ collectFrom (planIndex + 1) plans

def collectCommitMessageValidationErrors (plans : List CommitPlan) : List FeedbackError := collectFrom 0 plans

/-- Every error collected is about a message. -/
theorem collected_kind (planIndex : Nat) (plans : List CommitPlan) : ∀ e ∈ collectFrom planIndex plans, e.kind = .validation := by
  induction plans generalizing planIndex with
  | nil => intro e he; cases he
  | cons plan plans ih =>
    intro e he
    rcases List.mem_append.mp he with he | he
    · obtain ⟨message, -, rfl⟩ := List.mem_map.mp he
      rfl
    · exact ih _ e he

end GitCommitsPush.Publication
