/-
  GitCommitsPush.Publication.Phases — the two phases of a run
  (`phases/step1-discovery-validation.ts`, `phases/step2-commit-push.ts`).

  Phase 1 validates the discovered repositories and delegates one job for each. Phase 2
  handles the results of the delegated jobs, one repository at a time, and delegates the
  retries they queued. A result is handled in two parts, the attempt and, when it asks
  for one, the retry: `handleResult` runs both.
-/

import GitCommitsPush.Publication.Publisher
import GitCommitsPush.Publication.PushOnly
import GitCommitsPush.Publication.RetryPolicy

namespace GitCommitsPush.Publication

open GitCommitsPush.Lib.Effect
open GitCommitsPush.Lib.JsText
open GitCommitsPush.Lib.Trace (lifted note)

/-! ## The repositories of a run -/

/-- `GlobalState.repos`, by id. -/
abbrev Repos := List (String × RepoState)

namespace Repos

def get (repos : Repos) (id : String) : Option RepoState := (repos.find? (·.1 == id)).map (·.2)

def set (repos : Repos) (id : String) (repoState : RepoState) : Repos :=
  if repos.any (·.1 == id) then repos.map fun entry => if entry.1 == id then (id, repoState) else entry
  else repos ++ [(id, repoState)]

theorem get_cons (entry : String × RepoState) (repos : Repos) (id : String) :
    get (entry :: repos) id = if entry.1 = id then some entry.2 else repos.get id := by
  unfold get
  rw [List.find?_cons]
  by_cases h : entry.1 = id
  · rw [if_pos h, beq_iff_eq.mpr h]
    rfl
  · rw [if_neg h, beq_eq_false_iff_ne.mpr h]

theorem any_eq_isSome (repos : Repos) (id : String) : repos.any (·.1 == id) = (repos.get id).isSome := by
  induction repos with
  | nil => rfl
  | cons entry repos ih =>
    rw [List.any_cons, get_cons, ih]
    by_cases h : entry.1 = id
    · rw [if_pos h, beq_iff_eq.mpr h]
      rfl
    · rw [if_neg h, beq_eq_false_iff_ne.mpr h]
      rfl

theorem get_replaced (repos : Repos) (id : String) (repoState : RepoState) (other : String) :
    get (repos.map fun entry => if entry.1 == id then (id, repoState) else entry) other =
      if id = other then (repos.get id).map fun _ => repoState else repos.get other := by
  induction repos with
  | nil => simp [get]
  | cons entry repos ih =>
    rw [List.map_cons, get_cons, get_cons, get_cons, ih]
    by_cases h : entry.1 = id
    · simp only [h, beq_self_eq_true, if_true]
      by_cases hother : id = other
      · simp only [if_pos hother, Option.map_some]
      · simp only [if_neg hother]
    · simp only [beq_eq_false_iff_ne.mpr h, if_neg h, Bool.false_eq_true, if_false]
      by_cases hother : id = other
      · rw [if_pos hother, if_pos hother, if_neg (hother ▸ h)]
      · rw [if_neg hother, if_neg hother]

theorem get_added (repos : Repos) (id : String) (repoState : RepoState) (other : String) :
    get (repos ++ [(id, repoState)]) other = (repos.get other).or (if id = other then some repoState else none) := by
  induction repos with
  | nil => exact get_cons _ _ _
  | cons entry repos ih =>
    rw [List.cons_append, get_cons, get_cons, ih]
    by_cases h : entry.1 = other
    · rw [if_pos h, if_pos h]
      rfl
    · rw [if_neg h, if_neg h]

theorem get_set (repos : Repos) (id : String) (repoState : RepoState) (other : String) :
    Repos.get (Repos.set repos id repoState) other = if id = other then some repoState else repos.get other := by
  unfold set
  rw [any_eq_isSome]
  cases h : repos.get id with
  | some old => simp only [Option.isSome_some, if_true, get_replaced, h, Option.map_some]
  | none =>
    simp only [Option.isSome_none, Bool.false_eq_true, if_false, get_added]
    by_cases hother : id = other
    · rw [if_pos hother, if_pos hother, ← hother, h]
      rfl
    · rw [if_neg hother, if_neg hother, Option.or_none]

end Repos

/-! ## Merging what landed -/

def mergeInto (merged : List CommittedSha) : List CommittedSha → List CommittedSha
  | [] => merged
  | committedSha :: incoming =>
    if merged.any (·.sha == committedSha.sha) then mergeInto merged incoming
    else mergeInto (merged ++ [committedSha]) incoming

def mergeCommittedShas (existing : Option (List CommittedSha)) (incoming : List CommittedSha) : Option (List CommittedSha) :=
  some (mergeInto (existing.getD []) incoming)

def addNetworkRetries (repoState : RepoState) (pushRetryCount : Nat) : RepoState :=
  { repoState with attempts := repoState.attempts.set .network (repoState.attempts.network + pushRetryCount) }

def mergePostCommitPushFailure (repoState : RepoState) (context : PostCommitPushErrorContext) : RepoState :=
  { addNetworkRetries repoState context.pushRetryCount with
    committedShas := mergeCommittedShas repoState.committedShas context.committedShas
    originalHead := repoState.originalHead.or (some context.originalHead) }

/-- The state with every durable commit of a failed publication, and its pending files. -/
def mergeFailure (repoState : RepoState) : PublishError → RepoState × Option (List String)
  | .postCommitPush _ context => (mergePostCommitPushFailure repoState context, none)
  | .partialCommit _ context =>
    ({ repoState with
        committedShas := mergeCommittedShas repoState.committedShas context.committedShas
        originalHead := repoState.originalHead.or (some context.originalHead) }, some context.pendingFiles)
  | .commitPlan _ _ _ (some context) =>
    if context.committedShas = [] then (repoState, none)
    else ({ repoState with committedShas := mergeCommittedShas repoState.committedShas context.committedShas },
      some context.pendingFiles)
  | _ => (repoState, none)

/-- The state after a publication. -/
def mergePublished (repoState : RepoState) (published : Published) (commits : List CommitPlan) : RepoState :=
  let merged := { repoState with
    committedShas := mergeCommittedShas repoState.committedShas published.committedShas
    originalHead := repoState.originalHead.or (some published.originalHead) }
  { (if published.pushRetryCount > 0 then addNetworkRetries merged published.pushRetryCount else merged) with
    status := .SUCCESS
    commits := some commits }

/-! ## One result -/

section Result

variable {σ : Type} (host : Host σ) (settings : Settings) (systemPrompt : String)

/-- `resetIndexForRetry`. -/
def resetIndexForRetry (repository : String) : Action σ String Unit := do
  let _ ← (host.execSync repository "git reset HEAD").outcome

/-- What a failed publication leads to. -/
def handlePublishError (repoState : RepoState) (commits : List CommitPlan) (err : PublishError) :
    Action (Traced σ) String Attempt :=
  let (repoState, pendingFiles) := mergeFailure repoState err
  match classifyError err (hasCommittedShas repoState) with
  | .success =>
    pure (.settled { repoState with status := .SUCCESS, commits := some [], error := some emptyPlanMessage } none)
  | .retry error =>
    if repoState.attempts.get error.kind < MAX_ATTEMPTS_BY_KIND.get error.kind then do
      lifted (resetIndexForRetry host repoState.repository)
      return .retry {
        repoState := countAttempt repoState error.kind
        errors := [error]
        options := ⟨repoState.committedShas, pendingFiles⟩
        failedPlans := commits
        loop := .afterPublish error.kind }
    else pure (.settled { repoState with status := .FAILED, error := some error.message } none)
  | .fail error => pure (.settled { repoState with status := .FAILED, error := some error.message } none)

/-- The plans of a repository whose messages are valid. -/
def publishPlans (repoId : String) (repoState : RepoState) (commits : List CommitPlan) : Action (Traced σ) String Attempt :=
  let expectedDiffHash := repoState.diffHash.getD ""
  if expectedDiffHash = "" then .throw ("Cannot push: diffHash missing for " ++ repoId)
  else do
    match ← (executeMultiCommitAndPush host repoState.repository commits expectedDiffHash settings).outcome with
    | .ok published => return .settled (mergePublished repoState published commits) none
    | .error err => handlePublishError host repoState commits err

def attemptResult (repoId : String) (repoState : RepoState) (result : CommitJobResult) : Action (Traced σ) String Attempt :=
  if repoState.operation = some .pushOnly then do
    return .settled (← handlePushOnlyCheckpointResult host repoState result settings) none
  else match result with
    | .error _ error => pure (handleLlmJobFailure repoState error)
    | .success _ commits => do
      match ← lifted (handleValidationRetry host repoId settings systemPrompt repoState commits) with
      | some attempt => return attempt
      | none => publishPlans host settings repoId repoState commits

def answerRetry (request : RetryRequest) : QueueRetryResult → RepoState × Option RetryJob
  | .queued repoState job => (repoState, some job)
  | .loopDetected repoState => (loopState request.loop repoState, none)

/-- The retry a result asked for: the new state and the job queued. -/
def requeue (repoId : String) (request : RetryRequest) : Action σ String (RepoState × Option RetryJob) := do
  return answerRetry request
    (← queueRetry host repoId request.repoState request.errors request.options settings systemPrompt request.failedPlans)

def handleResult (repoId : String) (repoState : RepoState) (result : CommitJobResult) :
    Action (Traced σ) String (RepoState × Option RetryJob) := do
  match ← attemptResult host settings systemPrompt repoId repoState result with
  | .settled repoState job => return (repoState, job)
  | .retry request => lifted (requeue host settings systemPrompt repoId request)

end Result

/-! ## `runCommitAndPushPhase` -/

def CommitJobResult.id : CommitJobResult → String
  | .success id _ | .error id _ => id

section Phase

variable {σ : Type} (host : Host σ) (settings : Settings) (systemPrompt : String)

/-- The results in turn; the repositories and the retry jobs queued. -/
def runCommitAndPushPhase (repos : Repos) (retryJobs : List RetryJob) :
    List CommitJobResult → Action (Traced σ) String (Repos × List RetryJob)
  | [] => pure (repos, retryJobs)
  | result :: results =>
    match repos.get result.id with
    | none => runCommitAndPushPhase repos retryJobs results
    | some repoState => do
      let (repoState, job) ← handleResult host settings systemPrompt result.id repoState result
      runCommitAndPushPhase (repos.set result.id repoState) (retryJobs ++ job.toList) results

/-! ## `runDiscoveryAndValidationPhase` -/

structure ValidRepo where
  id : String
  path : String
  diff : String
  diffHash : String
  deriving DecidableEq, Repr

inductive DelegatedJob where
  | checkpointPushOnly (id repository : String)
  | plan (id : String) (payload : CommitJobPayload)
  deriving DecidableEq, Repr

def DelegatedJob.id : DelegatedJob → String
  | checkpointPushOnly id _ | plan id _ => id

/-- What a discovered repository has passed, if anything. -/
inductive Validated where
  | planning (validRepo : ValidRepo)
  | checkpointed
  | failed
  deriving DecidableEq, Repr

def validateRepository (repo : RepositoryInfo) : Action (Traced σ) String (RepoState × Validated) :=
  match repo.operation with
  | .pushOnly => match repo.pushSnapshot with
    | none => pure ({
        repository := repo.path
        status := .FAILED
        operation := some .pushOnly
        error := some "Push-only repository is missing its tracked snapshot." }, .failed)
    | some snapshot => pure ({
        repository := repo.path
        status := .RUNNING
        operation := some .pushOnly
        pushSnapshot := some snapshot }, .checkpointed)
  | .commitAndPush => do
    match ← (processRepoValidationAndDiff host repo.path settings).outcome with
    | .ok validated => return ({
        repository := repo.path
        status := .PENDING
        operation := some .commitAndPush
        diffHash := some validated.diffHash }, .planning ⟨repo.id, repo.path, validated.diff, validated.diffHash⟩)
    | .error err => return ({
        repository := repo.path
        status := .FAILED
        operation := some .commitAndPush
        pushSnapshot := repo.pushSnapshot
        error := some err.message }, .failed)

structure Validation where
  nextRepos : Repos
  validRepos : List ValidRepo
  checkpointJobs : List DelegatedJob

def Validation.add (v : Validation) (repo : RepositoryInfo) (repoState : RepoState) (validated : Validated) : Validation where
  nextRepos := v.nextRepos.set repo.id repoState
  validRepos := match validated with
    | .planning validRepo => v.validRepos ++ [validRepo]
    | _ => v.validRepos
  checkpointJobs := match validated with
    | .checkpointed => v.checkpointJobs ++ [.checkpointPushOnly repo.id repo.path]
    | _ => v.checkpointJobs

/-- The discovered repositories in turn. -/
def validateRepositories (v : Validation) : List RepositoryInfo → Action (Traced σ) String Validation
  | [] => pure v
  | repo :: repos => do
    let (repoState, validated) ← validateRepository host settings repo
    validateRepositories (v.add repo repoState validated) repos

/-- The diff a planner is shown, cut to the limit with the list of files after it. -/
def diffForLlm (validRepo : ValidRepo) : Action σ String String :=
  let maxDiff := settings.maxDiffChars.getD 3000000
  if length16 validRepo.diff > maxDiff then do
    let statFallback ← (host.execSync validRepo.path "git diff --cached --stat").attempt fun _ => pure ""
    return slice16 maxDiff validRepo.diff ++ "\n\n### DIFF TRUNCATED — " ++ toString (length16 validRepo.diff) ++
      " chars total, showing first " ++ toString maxDiff ++ " chars ###\n\n### FULL FILE LIST (git diff --stat) ###\n" ++
      statFallback
  else pure validRepo.diff

def planningJobs : List ValidRepo → Action σ String (List DelegatedJob)
  | [] => pure []
  | validRepo :: validRepos => do
    let diff ← diffForLlm host settings validRepo
    let payload : CommitJobPayload := {
      repository := validRepo.path
      diffHash := validRepo.diffHash
      provider := settings.provider
      model := settings.model
      temperature := settings.temperature
      systemPrompt
      thinking := settings.thinking
      agent := settings.agent
      work := .plan diff none }
    return .plan validRepo.id payload :: (← planningJobs validRepos)

def Repos.markRunning (repos : Repos) (ids : List String) : Repos :=
  repos.map fun entry => if ids.contains entry.1 then (entry.1, { entry.2 with status := .RUNNING }) else entry

theorem Repos.get_markRunning (repos : Repos) (ids : List String) (id : String) :
    (repos.markRunning ids).get id =
      (repos.get id).map fun repoState => if ids.contains id then { repoState with status := .RUNNING } else repoState := by
  induction repos with
  | nil => rfl
  | cons entry repos ih =>
    unfold markRunning at ih ⊢
    rw [List.map_cons, get_cons, get_cons, ih]
    by_cases hids : ids.contains entry.1 = true
    · rw [if_pos hids]
      by_cases h : entry.1 = id
      · rw [if_pos h, if_pos h, Option.map_some, if_pos (h ▸ hids)]
      · rw [if_neg h, if_neg h]
    · rw [if_neg hids]
      by_cases h : entry.1 = id
      · rw [if_pos h, if_pos h, Option.map_some, if_neg (h ▸ hids)]
      · rw [if_neg h, if_neg h]

/-- The states and the jobs to delegate; without a job the run is over. -/
def runDiscoveryAndValidationPhase (discovered : List RepositoryInfo) (repos : Repos) :
    Action (Traced σ) String (Repos × List DelegatedJob) := do
  let v ← validateRepositories host settings ⟨repos, [], []⟩ discovered
  let jobs ← lifted (planningJobs host settings systemPrompt v.validRepos)
  return (v.nextRepos.markRunning (v.validRepos.map (·.id)), v.checkpointJobs ++ jobs)

end Phase

end GitCommitsPush.Publication
