/-
  GitCommitsPush.Publication.QueueRetry — `core/queue-retry.ts`: the job a failed attempt
  sends back to the planner.

  Failed validation of the messages alone queues a repair of the messages, on the same
  diff hash. Any other failure stages the pending files again and takes the hash of
  what is staged then. Two attempts with one plan hash are a loop.
-/

import GitCommitsPush.Lib.PosixPath
import GitCommitsPush.Publication.RemainingDiff
import GitCommitsPush.Publication.Types

namespace GitCommitsPush.Publication

open GitCommitsPush.Lib.Effect
open GitCommitsPush.Lib.JsText
open GitCommitsPush.Lib.PosixPath

/-! ## Bounds -/

def MAX_ATTEMPTS_BY_KIND : AttemptsByKind := ⟨2, 1, 1, 1, 1⟩

def MAX_FEEDBACK_HISTORY : Nat :=
  max 10 (MAX_ATTEMPTS_BY_KIND.validation + MAX_ATTEMPTS_BY_KIND.structural + MAX_ATTEMPTS_BY_KIND.race +
    MAX_ATTEMPTS_BY_KIND.git + MAX_ATTEMPTS_BY_KIND.network)

def MAX_FEEDBACK_ENTRY_BYTES : Nat := 16 * 1024

def MAX_FEEDBACK_TOTAL_BYTES : Nat := 64 * 1024

/-! ## Plans as text -/

/-- `formatConventionalCommit` (`formatters/commit-formatter.ts`). -/
def formatConventionalCommit (commit : CommitMessage) : String :=
  let scope := match commit.scope with
    | some scope => if scope = "" then "" else "(" ++ scope ++ ")"
    | none => ""
  let body := match commit.body with
    | some body => if body = "" then "" else "\n\n" ++ body
    | none => ""
  commit.type ++ scope ++ (if commit.isBreaking then "!" else "") ++ ": " ++ commit.description ++ body

def formatFailedPlans (plans : List CommitPlan) : String :=
  joinStrings "\n---\n" (plans.map fun p => formatConventionalCommit p.commit ++ "\nFiles: " ++ joinStrings ", " p.files)

/-- The JSON text of a plan in canonical form: files sorted, absent fields null. -/
def canonicalPlan (plan : CommitPlan) : String :=
  "\x7b\"commit\":\x7b\"type\":" ++ jsonString plan.commit.type ++ ",\"scope\":" ++ jsonNullable plan.commit.scope ++
    ",\"description\":" ++ jsonString plan.commit.description ++ ",\"body\":" ++ jsonNullable plan.commit.body ++
    ",\"isBreaking\":" ++ (if plan.commit.isBreaking then "true" else "false") ++ "\x7d,\"files\":" ++
    jsonArray ((plan.files.mergeSort unitsLe).map jsonString) ++ "\x7d"

def truncated (limit : Nat) (text : String) : String :=
  if length16 text > limit then slice16 limit text ++ "\n[truncated]" else text

structure FeedbackHistory where
  nextHistory : List String
  previousCommit : String
  deriving DecidableEq, Repr

def appendFeedbackHistory (history : List String) (failedPlans : List CommitPlan) : FeedbackHistory :=
  let entry := truncated MAX_FEEDBACK_ENTRY_BYTES (formatFailedPlans failedPlans)
  let nextHistory := (history ++ [entry]).drop ((history ++ [entry]).length - MAX_FEEDBACK_HISTORY)
  ⟨nextHistory, truncated MAX_FEEDBACK_TOTAL_BYTES (joinStrings "\n\n--- NEXT ATTEMPT ---\n\n" nextHistory)⟩

/-! ## `queueRetry` -/

inductive QueueRetryResult where
  | queued (repoState : RepoState) (job : RetryJob)
  | loopDetected (repoState : RepoState)
  deriving DecidableEq, Repr

structure QueueRetryOptions where
  committedShas : Option (List CommittedSha)
  pendingFiles : Option (List String)

variable {σ : Type} (host : Host σ)

def hashPlans (plans : List CommitPlan) : String :=
  host.sha256 (jsonArray ((plans.map canonicalPlan).mergeSort fun left right => host.localeCompare left right ≤ 0))

def jobPayload (repoState : RepoState) (settings : Settings) (systemPrompt diffHash : String) (work : PayloadWork) :
    CommitJobPayload :=
  { repository := repoState.repository
    diffHash
    provider := settings.provider
    model := settings.model
    temperature := settings.temperature
    systemPrompt
    thinking := settings.thinking
    agent := settings.agent
    work }

def queueCommitMessageRepair (repoId : String) (repoState : RepoState) (errors : List FeedbackError)
    (settings : Settings) (systemPrompt : String) (failedPlans : List CommitPlan) : Except String QueueRetryResult :=
  match repoState.diffHash with
  | none => .error ("Cannot repair repo " ++ repoId ++ ": missing diffHash on RepoState")
  | some diffHash =>
    if diffHash = "" then .error ("Cannot repair repo " ++ repoId ++ ": missing diffHash on RepoState")
    else
      let planHash := hashPlans host failedPlans
      if repoState.lastPlanHash = some planHash then .ok (.loopDetected { repoState with lastPlanHash := some planHash })
      else
        let history := appendFeedbackHistory repoState.feedbackHistory failedPlans
        .ok (.queued { repoState with lastPlanHash := some planHash, feedbackHistory := history.nextHistory }
          ⟨repoId, jobPayload repoState settings systemPrompt diffHash (.repairCommitMessages failedPlans errors)⟩)

/-- A repair job carries the rejected plans and their errors. -/
theorem queueCommitMessageRepair_work {repoId : String} {repoState newState : RepoState} {errors : List FeedbackError}
    {settings : Settings} {systemPrompt : String} {failedPlans : List CommitPlan} {job : RetryJob}
    (h : queueCommitMessageRepair host repoId repoState errors settings systemPrompt failedPlans =
      .ok (.queued newState job)) :
    job.prompt.work = .repairCommitMessages failedPlans errors := by
  unfold queueCommitMessageRepair at h
  split at h
  · cases h
  · dsimp only at h
    split at h
    · cases h
    · split at h
      · cases h
      · cases h
        rfl

/-- The pending files no commit has landed yet. -/
def filterPending (repoState : RepoState) (options : QueueRetryOptions) : Option (List String) :=
  match options.pendingFiles with
  | some (f :: files) =>
    let committed := ((repoState.committedShas.getD [] ++ options.committedShas.getD []).flatMap (·.files)).map normalize
    some ((f :: files).filter fun g => !committed.contains (normalize g))
  | pending => pending

def stageCommand : Option (List String) → String
  | some (f :: files) => addCommand (f :: files)
  | _ => "git add -A"

/-- Stages the pending files, or everything, and reads the staged diff; `remainingDiff`
    when Git fails. -/
def restageDiff {ε : Type} (repository : String) (pendingFiles : Option (List String)) (remainingDiff : String) :
    Action σ ε String :=
  (do
    let _ ← host.execSync repository (stageCommand pendingFiles)
    host.execSync repository "git diff --cached").attempt fun _ => pure remainingDiff

/-- A failed attempt with message errors only. -/
def isMessageRepair (errors : List FeedbackError) (failedPlans : List CommitPlan) : Bool :=
  !failedPlans.isEmpty && !errors.isEmpty && errors.all (·.kind == .validation)

/-- What a retry becomes once its diff is known. -/
def queueReplan (repoId : String) (repoState : RepoState) (errors : List FeedbackError) (options : QueueRetryOptions)
    (settings : Settings) (systemPrompt : String) (failedPlans : List CommitPlan) (pendingFiles : Option (List String))
    (actualDiff : String) : QueueRetryResult :=
  let newDiffHash := host.sha256 actualDiff
  let planHash := hashPlans host failedPlans
  if repoState.lastPlanHash = some planHash then .loopDetected { repoState with lastPlanHash := some planHash }
  else
    let history := appendFeedbackHistory repoState.feedbackHistory failedPlans
    let feedback := ⟨history.previousCommit, errors, options.committedShas, pendingFiles⟩
    .queued
      { repoState with
        lastPlanHash := some planHash
        feedbackHistory := history.nextHistory
        diffHash := some newDiffHash }
      ⟨repoId, jobPayload repoState settings systemPrompt newDiffHash (.plan actualDiff (some feedback))⟩

def queueRetry (repoId : String) (repoState : RepoState) (errors : List FeedbackError) (options : QueueRetryOptions)
    (settings : Settings) (systemPrompt : String) (failedPlans : List CommitPlan) : Action σ String QueueRetryResult :=
  if repoState.diffHash.getD "" = "" then
    .throw ("Cannot retry repo " ++ repoId ++ ": missing diffHash on RepoState")
  else if isMessageRepair errors failedPlans = true then
    match queueCommitMessageRepair host repoId repoState errors settings systemPrompt failedPlans with
    | .ok result => pure result
    | .error message => .throw message
  else do
    let pendingFiles := filterPending repoState options
    let remainingDiff ← reconstructRemainingDiff host repoState.repository pendingFiles
    let actualDiff ← restageDiff host repoState.repository pendingFiles remainingDiff
    return queueReplan host repoId repoState errors options settings systemPrompt failedPlans pendingFiles actualDiff

end GitCommitsPush.Publication
