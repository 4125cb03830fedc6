/-
  GitCommitsPush.Publication.RetryPolicy — what a failure of one attempt leads to:
  `core/error-classifier.ts`, `core/llm-job-failure-handler.ts`,
  `core/validation-retry-handler.ts` and `core/fallback-model.ts`.

  A handler answers the settled state of the repository, with the job it queued if it
  queued one, or a request that is still to go through `queueRetry`. Repairs of commit
  messages are queued on the spot: they do not touch the repository.
-/

import GitCommitsPush.Publication.CommitMessages
import GitCommitsPush.Publication.Diagnostics
import GitCommitsPush.Publication.QueueRetry

namespace GitCommitsPush.Publication

open GitCommitsPush.Lib.Effect
open GitCommitsPush.Lib.JsText

/-! ## `classifyError` -/

def getResolutionHint : CommitPlanErrorKind → String
  | .duplicateFile => "Either split the duplicated file beforehand, or merge all changes touching it into a single Fat Commit plan (use the most impactful type: feat > fix > refactor > chore)."
  | .missingFile => "The file has no changes to commit (already committed or empty). Remove it from the plan."
  | .nonexistentFile => "The file path does not exist on disk in the working directory. Use only paths that appear in the staged diff (the \x60diff\x60 parameter). Remove the path from the plan or fix the path spelling."
  | .emptyPlans => "If pending_files is empty AND committed_shas covers everything, return an empty array []. Otherwise, generate plans that cover the pending_files exactly (plus any files you regroup via Fat Commit)."

def diffHashMismatchMessage : String := "DiffHash mismatch: The staged diff changed during LLM inference."

inductive Classified where
  | success
  | retry (error : FeedbackError)
  | fail (error : FeedbackError)
  deriving DecidableEq, Repr

def classifyError (err : PublishError) (committedShasExist : Bool) : Classified :=
  match err with
  | .commitPlan message kind files _ =>
    if kind = .emptyPlans ∧ committedShasExist = true then .success
    else .retry { kind := .structural, message, resolutionHint := some (getResolutionHint kind), files }
  | .diffHashMismatch => .retry {
      kind := .race
      message := diffHashMismatchMessage
      resolutionHint := some "The diff changed during inference. Regenerate based on the current diff." }
  | .partialCommit message _ => .retry {
      kind := .git
      message
      resolutionHint := some "Re-decide the plan based on the pending files (provided below)." }
  | .gitExec message _ _ => .fail { kind := .git, message }
  | .postCommitPush error _ => .fail { kind := .network, message := error.message }
  | .push error =>
    if error.transient = true then .retry { kind := .network, message := error.message }
    else .fail { kind := .network, message := error.message }
  | .other message => .fail { kind := .git, message }

/-- The kind to retry an LLM failure under, if any. -/
def classifyLLMFailure (error : String) : Option FeedbackKind :=
  if includes error "validation rejected" then some .validation else none

/-! ## Requests -/

/-- Which report a detected loop ends in. -/
inductive LoopReport where
  | afterLlmFailure
  | afterPublish (kind : FeedbackKind)
  deriving DecidableEq, Repr

structure RetryRequest where
  repoState : RepoState
  errors : List FeedbackError
  options : QueueRetryOptions
  failedPlans : List CommitPlan
  loop : LoopReport

inductive Attempt where
  | settled (repoState : RepoState) (job : Option RetryJob)
  | retry (request : RetryRequest)

def feedbackKindText : FeedbackKind → String
  | .validation => "validation"
  | .structural => "structural"
  | .race => "race"
  | .git => "git"
  | .network => "network"

/-- The end of a repository whose planner repeated itself. -/
def loopState (loop : LoopReport) (repoState : RepoState) : RepoState :=
  match loop with
  | .afterLlmFailure => { repoState with status := .FAILED, error := some "Loop detected after LLM-side failure." }
  | .afterPublish kind => { repoState with
      status := .FAILED
      error := some ("Loop detected: LLM returned an identical plan on two consecutive attempts for kind \"" ++
        feedbackKindText kind ++ "\".")
      loopDetected := some ⟨kind, repoState.lastPlanHash.getD ""⟩ }

def countAttempt (repoState : RepoState) (kind : FeedbackKind) : RepoState :=
  { repoState with attempts := repoState.attempts.set kind (repoState.attempts.get kind + 1) }

/-! ## `handleLlmJobFailure` -/

def emptyPlanMessage : String := "LLM returned an empty plan after partial commits completed; treating as success."

/-- The text of a failure is read as the report of an empty plan. -/
def isLlmEmptyPlans (llmError : String) : Bool := includes llmError "empty" || includes llmError "non-empty JSON array"

def hasCommittedShas (repoState : RepoState) : Bool := !(repoState.committedShas.getD []).isEmpty

def handleLlmJobFailure (repoState : RepoState) (error : String) : Attempt :=
  let llmError := sanitizeSensitiveDiagnostic error
  match classifyLLMFailure llmError with
  | none =>
    if isLlmEmptyPlans llmError && hasCommittedShas repoState then
      .settled { repoState with status := .SUCCESS, commits := some [], error := some emptyPlanMessage } none
    else .settled { repoState with status := .FAILED, error := some ("LLM fatal error: " ++ llmError) } none
  | some llmKind =>
    if repoState.attempts.get llmKind < MAX_ATTEMPTS_BY_KIND.get llmKind then
      .retry {
        repoState := countAttempt repoState llmKind
        errors := [{
          kind := llmKind
          message := llmError
          resolutionHint := some "The previous LLM response was malformed. Regenerate based on the current diff." }]
        options := ⟨none, none⟩
        failedPlans := []
        loop := .afterLlmFailure }
    else .settled { repoState with status := .FAILED, error := some ("LLM fatal error after max retries: " ++ llmError) } none

/-! ## `handleValidationRetry` -/

def shouldUseFallback (settings : Settings) (kind : FeedbackKind) (attemptCount : Nat) (fallbackAttempted : Bool) : Bool :=
  settings.fallbackProvider.getD "" != "" && settings.fallbackModel.getD "" != "" && kind == .validation &&
    !fallbackAttempted && 2 ≤ attemptCount

/-- Only called once `shouldUseFallback` found both. -/
def buildFallbackSettings (settings : Settings) : Settings :=
  { settings with provider := settings.fallbackProvider.getD "", model := settings.fallbackModel.getD "" }

section Validation

variable {σ : Type} (host : Host σ) (repoId : String) (settings : Settings) (systemPrompt : String)

def errorMessages (errors : List FeedbackError) : String := joinStrings ", " (errors.map (·.message))

/-- The repair goes to the fallback model, with a clean record. -/
def queueFallback (repoState : RepoState) (errors : List FeedbackError) (plans : List CommitPlan) :
    Action σ String QueueRetryResult :=
  queueRetry host repoId
    { repoState with
      fallbackAttempted := true
      lastPlanHash := none
      attempts := repoState.attempts.set .validation 0 }
    errors ⟨none, none⟩ (buildFallbackSettings settings) systemPrompt plans

/-- A repair the primary model repeated: the fallback model's turn, or the end. -/
def afterRepeatedRepair (repoState : RepoState) (errors : List FeedbackError) (plans : List CommitPlan) :
    Action σ String Attempt := do
  let failed := { repoState with
    status := .FAILED
    error := some "Loop detected: LLM returned an identical commit-message repair."
    loopDetected := some ⟨.validation, repoState.lastPlanHash.getD ""⟩ }
  if shouldUseFallback settings .validation (MAX_ATTEMPTS_BY_KIND.get .validation) false then
    match ← queueFallback host repoId settings systemPrompt repoState errors plans with
    | .queued repoState job => return .settled repoState (some job)
    | .loopDetected _ => return .settled failed none
  else return .settled failed none

/-- `none` when every message is valid. -/
def handleValidationRetry (repoState : RepoState) (plans : List CommitPlan) : Action σ String (Option Attempt) :=
  let errors := collectCommitMessageValidationErrors plans
  let validationAttempts := repoState.attempts.get .validation
  if errors.isEmpty = true then pure none
  else if repoState.fallbackAttempted = true then
    pure (some (.settled { repoState with
      status := .FAILED
      error := some ("Validation failed after fallback repair: " ++ errorMessages errors) } none))
  else if validationAttempts < MAX_ATTEMPTS_BY_KIND.get .validation then do
    match ← queueRetry host repoId (countAttempt repoState .validation) errors ⟨none, none⟩ settings systemPrompt plans with
    | .queued repoState job => return some (.settled repoState (some job))
    | .loopDetected repoState => return some (← afterRepeatedRepair host repoId settings systemPrompt repoState errors plans)
  else if shouldUseFallback settings .validation validationAttempts false then do
    match ← queueFallback host repoId settings systemPrompt repoState errors plans with
    | .queued repoState job => return some (.settled repoState (some job))
    | .loopDetected repoState => return some (.settled { repoState with
        status := .FAILED
        error := some "Loop detected after fallback: LLM returned an identical plan." } none)
  else
    pure (some (.settled { repoState with
      status := .FAILED
      error := some ("Validation failed after max retries: " ++ errorMessages errors) } none))

end Validation

end GitCommitsPush.Publication
