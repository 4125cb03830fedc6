/-
  GitCommitsPush.Publication.RetryHash — the diff hash of a queued retry and the index
  it was taken from.

  `queueRetry` stages the pending files again and reads the staged diff. When Git fails
  there it falls back to what the reconstruction before had read, and by then the index
  may hold something else. A subprocess succeeds or fails as the answers of the world
  say, so a statement over every world is one over every pattern of failures.
-/

import GitCommitsPush.Publication.Publisher

namespace GitCommitsPush.Publication

open GitCommitsPush.Lib.Effect
open GitCommitsPush.Lib.JsText

/-! ## Git under a pattern of failures -/

/-- What a command line prints in a repository and how it leaves it, when it succeeds.
    `git diff` only reads. -/
structure Git (ρ : Type) where
  print : (command : String) → ρ → String
  effect : (command : String) → ρ → ρ
  diff_effect : ∀ f r, effect (diffCommand f) r = r
  diffCached_effect : ∀ r, effect "git diff --cached" r = r

/-- A repository and whether each subprocess to come succeeds; past the list, all do. -/
structure GitWorld (ρ : Type) where
  repository : ρ
  answers : List Bool

namespace GitWorld

variable {ρ : Type} (w : GitWorld ρ)

/-- Whether subprocess number `k` from here succeeds. -/
def succeeds (k : Nat) : Bool := w.answers.getD k true

/-- The world after `k` subprocesses that left the repository `r`. -/
def leave (k : Nat) (r : ρ) : GitWorld ρ := ⟨r, w.answers.drop k⟩

@[simp] theorem leave_repository (k : Nat) (r : ρ) : (w.leave k r).repository = r := rfl

@[simp] theorem leave_succeeds (k j : Nat) (r : ρ) : (w.leave k r).succeeds j = w.succeeds (k + j) := by
  simp [leave, succeeds, List.getD_eq_getElem?_getD, List.getElem?_drop]

@[simp] theorem leave_leave (k j : Nat) (r r' : ρ) : (w.leave k r).leave j r' = w.leave (k + j) r' := by
  simp [leave, List.drop_drop]

theorem leave_zero : w.leave 0 w.repository = w := by simp [leave]

end GitWorld

namespace Git

variable {ρ : Type} (git : Git ρ)

/-- The staged diff. -/
def staged (r : ρ) : String := git.print "git diff --cached" r

def failure (command : String) : ExecError := { plainError ("Command failed: " ++ command) with status := some 128 }

/-- One subprocess. One that fails leaves the repository as it was. -/
def exec (command : String) : Action (GitWorld ρ) ExecError String := fun w =>
  if w.succeeds 0 = true then (.ok (git.print command w.repository), w.leave 1 (git.effect command w.repository))
  else (.error (failure command), w.leave 1 w.repository)

theorem exec_run (command : String) (w : GitWorld ρ) :
    (git.exec command).run w =
      if w.succeeds 0 = true then (.ok (git.print command w.repository), w.leave 1 (git.effect command w.repository))
      else (.error (failure command), w.leave 1 w.repository) := rfl

end Git

/-- A host whose commands in `repo` are Git's. -/
def RunsGit {ρ : Type} (host : Host (GitWorld ρ)) (git : Git ρ) (repo : String) : Prop :=
  ∀ command, host.execSync repo command = git.exec command

/-! ## What Git printed before the files are staged again -/

section Before

variable {ρ : Type} (git : Git ρ)

/-- The pending files inspected from `w` on: those staged again for the capture, and the
    diffs printed of those edited in the worktree. -/
def inspected (w : GitWorld ρ) : List String → List String × List String
  | [] => ([], [])
  | f :: files =>
    let rest := inspected (w.leave 1 w.repository) files
    let diff := git.print (diffCommand f) w.repository
    if w.succeeds 0 = true ∧ diff ≠ "" then (rest.1, diff :: rest.2) else (f :: rest.1, rest.2)

/-- How many subprocesses the capture of the files `safe` runs from `w`. -/
def captureSteps (w : GitWorld ρ) (safe : List String) : Nat :=
  if safe = [] then 0 else if w.succeeds 0 = false then 1 else if w.succeeds 1 = false then 2 else 3

/-- The repository the capture leaves: a failed reset, or a failed read, leaves the
    files staged. -/
def captureLeaves (w : GitWorld ρ) (safe : List String) : ρ :=
  if safe = [] ∨ w.succeeds 0 = false then w.repository
  else
    let r := git.effect (addCommand safe) w.repository
    if w.succeeds 1 = true ∧ w.succeeds 2 = true then git.effect "git reset HEAD" r else r

/-- The staged diff the capture reads. -/
def captured (w : GitWorld ρ) (safe : List String) : String :=
  if safe ≠ [] ∧ w.succeeds 0 = true ∧ w.succeeds 1 = true then git.staged (git.effect (addCommand safe) w.repository)
  else ""

/-- What Git printed before the pending files are staged again: with pending files, the
    staged diff of those unchanged in the worktree and the diffs of the others; with none,
    the staged diff. -/
def printedBefore (w : GitWorld ρ) : Option (List String) → String
  | some (f :: files) =>
    let found := inspected git w (f :: files)
    captured git (w.leave (f :: files).length w.repository) found.1 ++ joinStrings "\n" found.2
  | _ => if w.succeeds 0 = true then git.staged w.repository else ""

/-- The world in which the pending files are staged again. -/
def worldBefore (w : GitWorld ρ) : Option (List String) → GitWorld ρ
  | some (f :: files) =>
    let found := inspected git w (f :: files)
    let w' := w.leave (f :: files).length w.repository
    w'.leave (captureSteps w' found.1) (captureLeaves git w' found.1)
  | _ => w.leave 1 w.repository

/-- The repository once the pending files are staged again, or Git has failed to. -/
def restaged (w : GitWorld ρ) (pendingFiles : Option (List String)) : ρ :=
  let before := worldBefore git w pendingFiles
  if before.succeeds 0 = true then git.effect (stageCommand pendingFiles) before.repository else before.repository

/-- Staging the pending files again and reading the staged diff after it both succeed. -/
def RestageSucceeds (w : GitWorld ρ) (pendingFiles : Option (List String)) : Prop :=
  (worldBefore git w pendingFiles).succeeds 0 = true ∧ (worldBefore git w pendingFiles).succeeds 1 = true

instance (w : GitWorld ρ) (pendingFiles : Option (List String)) : Decidable (RestageSucceeds git w pendingFiles) :=
  inferInstanceAs (Decidable (_ ∧ _))

end Before

/-! ## The code runs so -/

section Runs

variable {ρ : Type} {git : Git ρ} {host : Host (GitWorld ρ)} {repo : String}

theorem inspectPending_run {ε : Type} (hgit : RunsGit host git repo) (w : GitWorld ρ) (files : List String) :
    (inspectPending (ε := ε) host repo files).run w = (.ok (inspected git w files), w.leave files.length w.repository) := by
  induction files generalizing w with
  | nil => exact congrArg (Prod.mk _) (by simp [GitWorld.leave_zero])
  | cons f files ih =>
    rw [inspectPending, hgit, Action.run_bind, Action.run_outcome, Git.exec_run]
    by_cases ha : w.succeeds 0 = true
    · simp only [if_pos ha, git.diff_effect, Action.run_bind, ih, GitWorld.leave_repository, GitWorld.leave_leave,
        List.length_cons, Nat.add_comm files.length]
      by_cases hd : git.print (diffCommand f) w.repository = ""
      · simp [inspected, hd]
      · simp [inspected, hd, ha]
    · simp only [if_neg ha, Action.run_bind, ih, GitWorld.leave_repository, GitWorld.leave_leave,
        List.length_cons, Nat.add_comm files.length]
      simp [inspected, ha]

theorem restageAndCapture_run {ε : Type} (hgit : RunsGit host git repo) (w : GitWorld ρ) {safe : List String}
    (hsafe : safe ≠ []) (parts : List String) :
    ((restageAndCapture host repo safe parts).attempt fun _ => pure (joinStrings "\n" parts) :
        Action (GitWorld ρ) ε String).run w =
      (.ok (captured git w safe ++ joinStrings "\n" parts), w.leave (captureSteps w safe) (captureLeaves git w safe)) := by
  rw [restageAndCapture, hgit, hgit, hgit, Action.run_attempt, Action.run_bind, Git.exec_run]
  by_cases hadd : w.succeeds 0 = true
  · simp only [if_pos hadd, Action.run_bind, Git.exec_run, GitWorld.leave_succeeds, Nat.add_zero]
    by_cases hread : w.succeeds 1 = true
    · by_cases hreset : w.succeeds 2 = true
      · simp [captured, captureSteps, captureLeaves, hsafe, hadd, hread, hreset, git.diffCached_effect, Git.exec_run,
          Git.staged]
      · simp [captured, captureSteps, captureLeaves, hsafe, hadd, hread, hreset, git.diffCached_effect, Git.exec_run,
          Git.staged]
    · simp [captured, captureSteps, captureLeaves, hsafe, hadd, hread]
  · simp [captured, captureSteps, captureLeaves, hsafe, hadd]

theorem reconstructRemainingDiff_run {ε : Type} (hgit : RunsGit host git repo) (w : GitWorld ρ)
    (pendingFiles : Option (List String)) :
    (reconstructRemainingDiff (ε := ε) host repo pendingFiles).run w =
      (.ok (printedBefore git w pendingFiles), worldBefore git w pendingFiles) := by
  have hread : ((host.execSync repo "git diff --cached").attempt fun _ => pure "" : Action (GitWorld ρ) ε String).run w =
      (.ok (if w.succeeds 0 = true then git.staged w.repository else ""), w.leave 1 w.repository) := by
    rw [hgit, Action.run_attempt, Git.exec_run]
    by_cases ha : w.succeeds 0 = true
    · simp [ha, git.diffCached_effect, Git.staged]
    · simp [ha]
  cases pendingFiles with
  | none => exact hread
  | some files =>
    cases files with
    | nil => exact hread
    | cons f files =>
      rw [reconstructRemainingDiff, Action.run_bind, inspectPending_run hgit]
      by_cases hsafe : (inspected git w (f :: files)).1 = []
      · simp [printedBefore, worldBefore, hsafe, captured, captureSteps, captureLeaves]
      · simp only [ne_eq, hsafe, not_false_eq_true, if_true]
        exact restageAndCapture_run hgit _ hsafe _

/-- The diff a retry carries: what is staged, or what Git had printed before. -/
theorem restageDiff_run {ε : Type} (hgit : RunsGit host git repo) (w : GitWorld ρ) (pendingFiles : Option (List String)) :
    ∃ w', (restageDiff (ε := ε) host repo pendingFiles (printedBefore git w pendingFiles)).run
        (worldBefore git w pendingFiles) =
      (.ok (if RestageSucceeds git w pendingFiles then git.staged (restaged git w pendingFiles)
        else printedBefore git w pendingFiles), w') ∧ w'.repository = restaged git w pendingFiles := by
  rw [restageDiff, hgit, hgit, Action.run_attempt, Action.run_bind, Git.exec_run]
  by_cases hadd : (worldBefore git w pendingFiles).succeeds 0 = true
  · by_cases hread : (worldBefore git w pendingFiles).succeeds 1 = true
    · simp [hadd, hread, Git.exec_run, git.diffCached_effect, RestageSucceeds, restaged, Git.staged]
    · simp [hadd, hread, Git.exec_run, RestageSucceeds, restaged]
  · simp [hadd, RestageSucceeds, restaged]

end Runs

/-! ## The recorded hash -/

section Recorded

variable {ρ : Type} {git : Git ρ} {host : Host (GitWorld ρ)}

/-- The job and the new state carry one hash, and it is that of the diff staged in `r`. -/
def RecordsStaged (git : Git ρ) (host : Host (GitWorld ρ)) (newState : RepoState) (job : RetryJob) (r : ρ) : Prop :=
  newState.diffHash = some job.prompt.diffHash ∧ job.prompt.diffHash = host.sha256 (git.staged r)

variable {repoId systemPrompt : String} {repoState newState : RepoState} {errors : List FeedbackError}
  {options : QueueRetryOptions} {settings : Settings} {failedPlans : List CommitPlan} {job : RetryJob}

theorem queueReplan_queued {pendingFiles : Option (List String)} {actualDiff : String}
    (h : queueReplan host repoId repoState errors options settings systemPrompt failedPlans pendingFiles actualDiff =
      .queued newState job) :
    newState.diffHash = some (host.sha256 actualDiff) ∧ job.prompt.diffHash = host.sha256 actualDiff := by
  unfold queueReplan at h
  by_cases hloop : repoState.lastPlanHash = some (hashPlans host failedPlans)
  · simp [hloop] at h
  · simp only [hloop, if_false] at h
    cases h
    exact ⟨rfl, rfl⟩

/-- A job that is no repair went through the reconstruction and the second staging. -/
theorem queueRetry_queued_run (hgit : RunsGit host git repoState.repository) {w w' : GitWorld ρ}
    {diff : String} {feedback : Option Feedback}
    (hrun : (queueRetry host repoId repoState errors options settings systemPrompt failedPlans).run w =
      (.ok (.queued newState job), w'))
    (hwork : job.prompt.work = .plan diff feedback) :
    w'.repository = restaged git w (filterPending repoState options) ∧
      queueReplan host repoId repoState errors options settings systemPrompt failedPlans
        (filterPending repoState options)
        (if RestageSucceeds git w (filterPending repoState options)
          then git.staged (restaged git w (filterPending repoState options))
          else printedBefore git w (filterPending repoState options)) = .queued newState job := by
  unfold queueRetry at hrun
  split at hrun
  · cases hrun
  split at hrun
  · -- a repair carries the rejected plans
    cases hrepair : queueCommitMessageRepair host repoId repoState errors settings systemPrompt failedPlans with
    | error message =>
      rw [hrepair] at hrun
      cases hrun
    | ok result =>
      rw [hrepair] at hrun
      cases hrun
      rw [queueCommitMessageRepair_work host hrepair] at hwork
      cases hwork
  · obtain ⟨w₂, hrestage, hleft⟩ := restageDiff_run (ε := String) hgit w (filterPending repoState options)
    rw [Action.run_bind, reconstructRemainingDiff_run hgit] at hrun
    simp only [Action.run_bind, hrestage, Action.run_pure] at hrun
    injection hrun with hresult hworld
    exact ⟨hworld ▸ hleft, Except.ok.inj hresult⟩

/-- A queued job carries the hash of what it leaves staged exactly when staging the
    pending files again succeeds, or what Git had printed before has that hash too. -/
theorem recorded_hash_iff (hgit : RunsGit host git repoState.repository) {w w' : GitWorld ρ}
    {diff : String} {feedback : Option Feedback}
    (hrun : (queueRetry host repoId repoState errors options settings systemPrompt failedPlans).run w =
      (.ok (.queued newState job), w'))
    (hwork : job.prompt.work = .plan diff feedback) :
    RecordsStaged git host newState job w'.repository ↔
      RestageSucceeds git w (filterPending repoState options) ∨
        host.sha256 (printedBefore git w (filterPending repoState options)) =
          host.sha256 (git.staged (restaged git w (filterPending repoState options))) := by
  obtain ⟨hleft, hreplan⟩ := queueRetry_queued_run hgit hrun hwork
  obtain ⟨hstate, hjob⟩ := queueReplan_queued hreplan
  rw [RecordsStaged, hstate, hjob, hleft]
  by_cases hok : RestageSucceeds git w (filterPending repoState options)
  · simp [hok]
  · simp [hok]

end Recorded

/-! ## A staged diff too large to read -/

def newFileDiff : String :=
  "diff --git a/data.csv b/data.csv\nnew file mode 100644\nindex 0000000..8baef1b\n--- /dev/null\n+++ b/data.csv\n" ++
    "@@ -0,0 +1 @@\n+abc\n"

/-- A repository with one new file: the state says whether it is staged. -/
def newFileGit : Git Bool where
  print command isStaged := if command = "git diff --cached" then if isStaged then newFileDiff else "" else ""
  effect command isStaged :=
    if command = "git add -A" then true else if command = "git reset HEAD" then false else isStaged
  diff_effect f isStaged := by
    have hsixth : (diffCommand f).toList[5]? = some 'i' := by simp [diffCommand]
    have hadd : diffCommand f ≠ "git add -A" := fun h => (by rw [h] at hsixth; revert hsixth; decide)
    have hreset : diffCommand f ≠ "git reset HEAD" := fun h => (by rw [h] at hsixth; revert hsixth; decide)
    simp [hadd, hreset]
  diffCached_effect isStaged := by simp

/-- SHA-256 of the texts of the run: no diff, the diff of the new file, an empty list of plans. -/
def newFileHost : Host (GitWorld Bool) where
  sha256 text :=
    if text = "" then EMPTY_DIFF_HASH
    else if text = newFileDiff then "58df750a8a44b0843a7eff626e8afce0cdd4ea882881123bc17938e0c22fd21b"
    else "4f53cda18c2baa0c0354bb5f9a3ecbe5ed12ab4d8e11ba873c2f11161202b945"
  localeCompare _ _ := 0
  execSync _ command := newFileGit.exec command
  execFileGit _ args _ := newFileGit.exec (joinStrings " " ("git" :: args))
  writeMessage _ _ := pure "/tmp/commit-message"
  pathExists _ _ := pure true
  randomUUID := pure "00000000-0000-4000-8000-000000000000"
  runTestCascade _ := pure ()

def newFileState : RepoState where
  repository := "/repo"
  status := .RUNNING
  operation := some .commitAndPush
  diffHash := some (newFileHost.sha256 newFileDiff)

def newFileSettings : Settings where
  provider := "openai"
  model := "model"
  temperature := 0
  autoPush := true
  skipTests := true
  fallbackProvider := none
  fallbackModel := none
  thinking := none
  agent := none
  maxDiffChars := none

def invalidResponse : FeedbackError := { kind := .structural, message := "invalid response" }

/-- The retry of an invalid answer of the planner, with everything staged. -/
def newFileRetry (answers : List Bool) : Except String QueueRetryResult × GitWorld Bool :=
  (queueRetry newFileHost "repo" newFileState [invalidResponse] ⟨none, none⟩ newFileSettings "" []).run
    ⟨true, answers⟩

/-- With every read of the staged diff failing, the empty-diff hash is recorded over a
    staged file. -/
theorem empty_hash_over_staged_file :
    ∃ newState job w', newFileRetry [false, true, false] = (.ok (.queued newState job), w') ∧
      job.prompt.work = .plan "" (some ⟨"", [invalidResponse], none, none⟩) ∧
      job.prompt.diffHash = EMPTY_DIFF_HASH ∧ newFileGit.staged w'.repository ≠ "" ∧
      ¬ RecordsStaged newFileGit newFileHost newState job w'.repository := by
  refine ⟨_, _, _, rfl, by decide, by decide, by decide, ?_⟩
  rintro ⟨_, h⟩
  exact absurd h (by decide)

theorem recorded_hash_iff_sample :
    ∃ newState job w', newFileRetry [] = (.ok (.queued newState job), w') ∧
      (RecordsStaged newFileGit newFileHost newState job w'.repository ↔
        RestageSucceeds newFileGit ⟨true, []⟩ none ∨
          newFileHost.sha256 (printedBefore newFileGit ⟨true, []⟩ none) =
            newFileHost.sha256 (newFileGit.staged (restaged newFileGit ⟨true, []⟩ none))) :=
  ⟨_, _, _, rfl, @recorded_hash_iff Bool newFileGit newFileHost "repo" "" newFileState _ [invalidResponse] ⟨none, none⟩
    newFileSettings [] _ (fun _ => rfl) ⟨true, []⟩ _ _ _ rfl rfl⟩

end GitCommitsPush.Publication
