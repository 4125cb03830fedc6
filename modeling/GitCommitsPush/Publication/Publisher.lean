/-
  GitCommitsPush.Publication.Publisher — `executeMultiCommitAndPush` (`git/publisher.ts`):
  one commit for each plan, then one push.

  The plans are refused when there is none, when two name one file, or when the staged
  diff is not the one expected. The commits are then rebuilt from the working tree: the
  index is reset and each plan's files are staged alone. A plan that fails ends the loop
  with the commits landed so far and the files still pending.
-/

import GitCommitsPush.Publication.Push
import GitCommitsPush.Publication.QueueRetry

namespace GitCommitsPush.Publication

open GitCommitsPush.Lib.Effect
open GitCommitsPush.Lib.JsText
open GitCommitsPush.Lib.Trace (lifted note)
open GitCommitsPush.Lib.PosixPath

/-! ## `inspectCommitPlanFileState` (`git/commit-plan-file-state.ts`) -/

structure CommitPlanFileState where
  nonexistentFiles : List String
  unchangedFiles : List String
  deriving DecidableEq, Repr

section FileState

variable {σ : Type} (host : Host σ) (repositoryPath : String)

inductive PlannedFileState where
  | changed | unchanged | nonexistent
  deriving DecidableEq, Repr

/-- A changed or ignored path has a status line; a clean one exists or is tracked. -/
def inspectPlannedFile (plannedFile : String) : Action σ ExecError PlannedFileState := do
  let status ← host.gitExecArgsRaw
    ["--literal-pathspecs", "status", "--porcelain=v1", "--ignored=matching", "-z", "--", plannedFile] repositoryPath
  if status ≠ "" then return .changed
  else if ← host.pathExists repositoryPath plannedFile then return .unchanged
  else
    let trackedPath ← host.gitExecArgsRaw ["--literal-pathspecs", "ls-files", "--cached", "-z", "--", plannedFile] repositoryPath
    return if trackedPath ≠ "" then .unchanged else .nonexistent

def inspectCommitPlanFileState : List String → Action σ ExecError CommitPlanFileState
  | [] => pure ⟨[], []⟩
  | plannedFile :: plannedFiles => do
    let found ← inspectPlannedFile host repositoryPath plannedFile
    let rest ← inspectCommitPlanFileState plannedFiles
    return match found with
      | .changed => rest
      | .unchanged => { rest with unchangedFiles := plannedFile :: rest.unchangedFiles }
      | .nonexistent => { rest with nonexistentFiles := plannedFile :: rest.nonexistentFiles }

end FileState

/-! ## Guards -/

/-- `path.posix.normalize(p).replace(/\/+$/, "")`. -/
def normalizePath (p : String) : String :=
  String.ofList ((normalize p).toList.reverse.dropWhile (· == '/')).reverse

/-- The first file named twice, after normalization. -/
def firstDuplicate (seen : List String) : List String → Option String
  | [] => none
  | file :: files =>
    if seen.contains (normalizePath file) then some file else firstDuplicate (normalizePath file :: seen) files

/-- Files without duplicates have different texts. -/
theorem firstDuplicate_none (seen files : List String) (h : firstDuplicate seen files = none) :
    (files.map normalizePath).Nodup ∧ ∀ f ∈ files, normalizePath f ∉ seen := by
  induction files generalizing seen with
  | nil => exact ⟨List.nodup_nil, fun f hf => by cases hf⟩
  | cons file files ih =>
    unfold firstDuplicate at h
    by_cases hseen : seen.contains (normalizePath file) = true
    · rw [if_pos hseen] at h
      cases h
    rw [if_neg hseen] at h
    obtain ⟨hnodup, hfresh⟩ := ih _ h
    constructor
    · rw [List.map_cons, List.nodup_cons]
      refine ⟨fun hmem => ?_, hnodup⟩
      obtain ⟨f, hf, heq⟩ := List.mem_map.mp hmem
      exact hfresh f hf (heq ▸ List.mem_cons_self)
    · intro f hf
      rcases List.mem_cons.mp hf with rfl | hf
      · exact fun hmem => hseen (List.contains_iff_mem.mpr hmem)
      · exact fun hmem => hfresh f hf (List.mem_cons_of_mem _ hmem)

/-- The files of the plans from `index` on, each once. -/
def collectPendingFiles (plans : List CommitPlan) (index : Nat) : List String :=
  ((plans.drop index).flatMap (·.files)).eraseDups

/-- SHA-256 of the empty diff. -/
def EMPTY_DIFF_HASH : String := "e3b0c44298fc1c149afbf4c8996fb92427ae41e4649b934ca495991b7852b855"

def duplicateFileError (file : String) : PublishError :=
  .commitPlan ("Invalid commit plan: file \"" ++ file ++ "\" appears in multiple plans. " ++
    "Files that contain multiple concerns must be grouped into a single Fat Commit plan.") .duplicateFile (some [file]) none

def emptyPlansError : PublishError :=
  .commitPlan "executeMultiCommitAndPush: received an empty plans array." .emptyPlans none none

/-! ## The commit loop -/

section Loop

variable {σ : Type} (host : Host σ) (repoPath : String)

/-- Stages the files of plan `i`, commits them and reads the new id. -/
def commitPlan (i : Nat) (plan : CommitPlan) : Action (Traced σ) ExecError CommittedSha := do
  let _ ← lifted (host.gitExecArgs (["--literal-pathspecs", "add", "--"] ++ plan.files) repoPath)
  let tempMsgPath ← lifted (host.writeMessage i (formatConventionalCommit plan.commit))
  let _ ← lifted (host.gitExecArgs ["commit", "--file", tempMsgPath, "--no-verify"] repoPath)
  let stdout ← lifted (host.execSync repoPath "git rev-parse HEAD")
  let sha := trimString stdout
  note (.committed repoPath sha)
  return ⟨sha, plan.files⟩

def planNumber (i : Nat) (plans : List CommitPlan) : String := toString (i + 1) ++ "/" ++ toString plans.length

/-- What is thrown for the failure of plan `i`; itself throws when Git fails again. -/
def commitFailure (plans : List CommitPlan) (originalHead : String) (i : Nat) (plan : CommitPlan)
    (committedShas : List CommittedSha) (commitErr : ExecError) : Action σ ExecError PublishError := do
  let pendingFiles := collectPendingFiles plans i
  let _ ← (host.gitExec "reset HEAD" repoPath).attempt fun resetErr =>
    .throw (plainError ("reset HEAD failed during cleanup: " ++ resetErr.message ++ ". Original commit error: " ++
      commitErr.message))
  let fileState ← inspectCommitPlanFileState host repoPath plan.files
  if fileState.nonexistentFiles ≠ [] then
    return .commitPlan ("Plan " ++ planNumber i plans ++ " references file(s) that do not exist on disk or in Git: " ++
      joinStrings ", " fileState.nonexistentFiles ++ ".") .nonexistentFile (some fileState.nonexistentFiles)
      (some ⟨committedShas, pendingFiles⟩)
  else if fileState.unchangedFiles.length = plan.files.length then
    return .commitPlan ("Plan " ++ planNumber i plans ++ " has no changes for file(s): " ++
      joinStrings ", " fileState.unchangedFiles ++ ".") .missingFile (some fileState.unchangedFiles)
      (some ⟨committedShas, pendingFiles⟩)
  else
    let msg := commitErr.message ++ "\n" ++ commitErr.stdout ++ "\n" ++ commitErr.stderr
    return .partialCommit ("Commit " ++ planNumber i plans ++ " failed: " ++ msg ++ ". " ++
      toString committedShas.length ++ " commit(s) already in history (from " ++ slice16 7 originalHead ++ "). " ++
      toString pendingFiles.length ++ " file(s) still pending.") ⟨committedShas, originalHead, i, plans.length, pendingFiles⟩

/-- The plans from number `i` on, `committedShas` landed before. -/
def commitPlans (plans : List CommitPlan) (originalHead : String) (i : Nat) (committedShas : List CommittedSha) :
    List CommitPlan → Action (Traced σ) PublishError (List CommittedSha)
  | [] => pure committedShas
  | plan :: rest => do
    match ← (commitPlan host repoPath i plan).outcome with
    | .ok committed =>
      let _ ← (lifted (host.gitExec "reset HEAD" repoPath)).outcome
      commitPlans plans originalHead (i + 1) (committedShas ++ [committed]) rest
    | .error commitErr =>
      match ← (lifted (commitFailure host repoPath plans originalHead i plan committedShas commitErr)).outcome with
      | .ok error => .throw error
      | .error error => .throw (.gitExec error.message "unknown" (-1))

end Loop

/-! ## `executeMultiCommitAndPush` -/

structure Published where
  committedShas : List CommittedSha
  originalHead : String
  pushRetryCount : Nat
  deriving DecidableEq, Repr

section Publish

variable {σ : Type} (host : Host σ) (repoPath : String)

/-- A subprocess outside the loop: its error is thrown as it is. -/
def unwrapped {α : Type} (x : Action σ ExecError α) : Action (Traced σ) PublishError α :=
  (lifted x).attempt fun error => .throw (.other error.message)

/-- The staged diff is still the expected one; nothing staged is expected to stay so. -/
def guardDiffHash (expectedDiffHash : String) : Action (Traced σ) PublishError Unit :=
  if expectedDiffHash = EMPTY_DIFF_HASH then pure ()
  else do
    let currentDiff ← unwrapped (host.execSync repoPath "git diff --cached")
    if host.sha256 currentDiff ≠ expectedDiffHash then .throw .diffHashMismatch else pure ()

def pushCommits (settings : Settings) (committedShas : List CommittedSha) (originalHead : String) :
    Action (Traced σ) PublishError Published := do
  let pushRetryCount ← (lifted (executePush host repoPath settings.autoPush)).attempt fun error =>
    .throw (.postCommitPush error ⟨committedShas, originalHead, error.retryCount⟩)
  note (.pushed repoPath)
  return ⟨committedShas, originalHead, pushRetryCount⟩

def executeMultiCommitAndPush (plans : List CommitPlan) (expectedDiffHash : String) (settings : Settings) :
    Action (Traced σ) PublishError Published := do
  note (.executing repoPath expectedDiffHash)
  if plans.isEmpty = true then .throw emptyPlansError
  else match firstDuplicate [] (plans.flatMap (·.files)) with
    | some file => .throw (duplicateFileError file)
    | none =>
      guardDiffHash host repoPath expectedDiffHash
      let head ← unwrapped (host.execSync repoPath "git rev-parse HEAD")
      let originalHead := trimString head
      let _ ← unwrapped (host.gitExec "reset HEAD" repoPath)
      let committedShas ← commitPlans host repoPath plans originalHead 0 [] plans
      pushCommits host repoPath settings committedShas originalHead

end Publish

end GitCommitsPush.Publication
