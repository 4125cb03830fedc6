/-
  GitCommitsPush.Publication.ResultKeeps — what handling a result leaves alone.

  Phase 2 runs few kinds of subprocesses: shell commands that stage, reset and read, Git
  with arguments, the commit among them, and the repository's own tests. What all of these
  keep, handling a result keeps (`KeptBy.attemptResult`), and so do the two steps of a retry.
-/

import GitCommitsPush.Publication.Phases
import GitCommitsPush.Publication.PushKeeps
import GitCommitsPush.Publication.RetryCommands
import GitCommitsPush.Publication.Runs

namespace GitCommitsPush.Publication

open GitCommitsPush.Lib.Effect
open GitCommitsPush.Lib.Trace (lifted note)

/-- The shell commands of phase 2. -/
def PhaseCommand (command : String) : Prop := command = "git rev-parse HEAD" ∨ ∃ files, Issued files command

/-- The subprocesses of phase 2 keep `I`; commits do in the repositories `commits`. -/
structure KeptBy {σ : Type} (host : Host σ) (I : σ → Prop) (commits : String → Prop) : Prop where
  shell : ∀ cwd command, PhaseCommand command → Action.Keeps I (host.execSync cwd command)
  git : ∀ cwd args processConfig, (args.headD "" = "commit" → commits cwd) →
    Action.Keeps I (host.execFileGit cwd args processConfig)
  writeMessage : ∀ i message, Action.Keeps I (host.writeMessage i message)
  pathExists : ∀ cwd file, Action.Keeps I (host.pathExists cwd file)
  randomUUID : Action.Keeps I host.randomUUID
  runTestCascade : ∀ repository, Action.Keeps I (host.runTestCascade repository)

section Traced

variable {σ ε : Type} {α : Type} {I : σ → Prop}

/-- `I` of the world under the trace. -/
abbrev Below (I : σ → Prop) (w : Traced σ) : Prop := I w.world

theorem lifted_keeps {x : Action σ ε α} (h : Action.Keeps I x) : Action.Keeps (Below I) (lifted x) :=
  fun w hw => h w.world hw

theorem note_keeps (event : Event) : Action.Keeps (Below I) (note event : Action (Traced σ) ε Unit) := fun _ hw => hw

end Traced

namespace KeptBy

variable {σ : Type} {host : Host σ} {I : σ → Prop} {commits : String → Prop} (h : KeptBy host I commits)

include h

theorem gitExecArgs {args : List String} {cwd : String} (hargs : args.headD "" = "commit" → commits cwd) :
    Action.Keeps I (host.gitExecArgs args cwd) :=
  Action.Keeps.bind (h.git _ _ _ hargs) fun _ => Action.Keeps.pure _

theorem reset (cwd : String) : Action.Keeps I (host.gitExec "reset HEAD" cwd) :=
  Action.Keeps.bind (h.shell _ _ (.inr ⟨[], .nameless (by decide)⟩)) fun _ => Action.Keeps.pure _

/-! ## The publisher -/

theorem inspectPlannedFile (cwd file : String) : Action.Keeps I (inspectPlannedFile host cwd file) := by
  unfold Publication.inspectPlannedFile
  refine Action.Keeps.bind (h.git _ _ _ fun hcommit => absurd hcommit (by simp)) fun status => ?_
  apply Action.Keeps.ite
  · intro _
    exact Action.Keeps.pure _
  intro _
  refine Action.Keeps.bind (h.pathExists _ _) fun found => ?_
  apply Action.Keeps.ite
  · intro _
    exact Action.Keeps.pure _
  · intro _
    exact Action.Keeps.bind (h.git _ _ _ fun hcommit => absurd hcommit (by simp)) fun _ => Action.Keeps.pure _

theorem inspectCommitPlanFileState (cwd : String) (files : List String) :
    Action.Keeps I (inspectCommitPlanFileState host cwd files) := by
  induction files with
  | nil => exact Action.Keeps.pure _
  | cons file files ih =>
    exact Action.Keeps.bind (h.inspectPlannedFile cwd file) fun _ => Action.Keeps.bind ih fun _ => Action.Keeps.pure _

theorem commitFailure (repoPath : String) (plans : List CommitPlan) (originalHead : String) (i : Nat) (plan : CommitPlan)
    (committedShas : List CommittedSha) (commitErr : ExecError) :
    Action.Keeps I (commitFailure host repoPath plans originalHead i plan committedShas commitErr) := by
  unfold Publication.commitFailure
  refine Action.Keeps.bind (Action.Keeps.attempt (h.reset repoPath) fun _ => Action.Keeps.throw _) fun _ => ?_
  refine Action.Keeps.bind (h.inspectCommitPlanFileState repoPath plan.files) fun fileState => ?_
  apply Action.Keeps.ite
  · intro _
    exact Action.Keeps.pure _
  intro _
  apply Action.Keeps.ite
  · intro _
    exact Action.Keeps.pure _
  · intro _
    exact Action.Keeps.pure _

theorem commitPlan {repoPath : String} (hrepo : commits repoPath) (i : Nat) (plan : CommitPlan) :
    Action.Keeps (Below I) (commitPlan host repoPath i plan) := by
  unfold Publication.commitPlan
  refine Action.Keeps.bind (lifted_keeps (h.gitExecArgs fun _ => hrepo)) fun _ => ?_
  refine Action.Keeps.bind (lifted_keeps (h.writeMessage _ _)) fun _ => ?_
  refine Action.Keeps.bind (lifted_keeps (h.gitExecArgs fun _ => hrepo)) fun _ => ?_
  refine Action.Keeps.bind (lifted_keeps (h.shell _ _ (.inl rfl))) fun _ => ?_
  exact Action.Keeps.bind (note_keeps _) fun _ => Action.Keeps.pure _

theorem commitPlans {repoPath : String} (hrepo : commits repoPath) (plans : List CommitPlan) (originalHead : String)
    (rest : List CommitPlan) (i : Nat) (committedShas : List CommittedSha) :
    Action.Keeps (Below I) (commitPlans host repoPath plans originalHead i committedShas rest) := by
  induction rest generalizing i committedShas with
  | nil => exact Action.Keeps.pure _
  | cons plan rest ih =>
    unfold Publication.commitPlans
    refine Action.Keeps.bind (h.commitPlan hrepo i plan).outcome fun committed => ?_
    cases committed with
    | ok committed => exact Action.Keeps.bind (lifted_keeps (h.reset repoPath)).outcome fun _ => ih _ _
    | error commitErr =>
      refine Action.Keeps.bind (lifted_keeps (h.commitFailure _ _ _ _ _ _ _)).outcome fun failure => ?_
      cases failure with
      | ok error => exact Action.Keeps.throw _
      | error error => exact Action.Keeps.throw _

theorem executePush (repository : String) (autoPush : Bool) : Action.Keeps I (executePush host repository autoPush) :=
  executePush_keeps (fun _ _ _ hcommit _ => h.git _ _ _ fun he => absurd he hcommit) h.randomUUID repository autoPush

omit h in
theorem unwrapped {α : Type} {x : Action σ ExecError α} (hx : Action.Keeps I x) : Action.Keeps (Below I) (unwrapped x) :=
  Action.Keeps.attempt (lifted_keeps hx) fun _ => Action.Keeps.throw _

theorem guardDiffHash (repoPath expectedDiffHash : String) :
    Action.Keeps (Below I) (guardDiffHash host repoPath expectedDiffHash) := by
  unfold Publication.guardDiffHash
  apply Action.Keeps.ite
  · intro _
    exact Action.Keeps.pure _
  intro _
  refine Action.Keeps.bind (unwrapped (h.shell _ _ (.inr ⟨[], .nameless (by decide)⟩))) fun _ => ?_
  apply Action.Keeps.ite
  · intro _
    exact Action.Keeps.throw _
  · intro _
    exact Action.Keeps.pure _

theorem pushCommits (repoPath : String) (settings : Settings) (committedShas : List CommittedSha) (originalHead : String) :
    Action.Keeps (Below I) (pushCommits host repoPath settings committedShas originalHead) := by
  unfold Publication.pushCommits
  refine Action.Keeps.bind (Action.Keeps.attempt (lifted_keeps (h.executePush _ _)) fun _ => Action.Keeps.throw _) fun _ => ?_
  exact Action.Keeps.bind (note_keeps _) fun _ => Action.Keeps.pure _

theorem executeMultiCommitAndPush {repoPath : String} (hrepo : commits repoPath) (plans : List CommitPlan)
    (expectedDiffHash : String) (settings : Settings) :
    Action.Keeps (Below I) (executeMultiCommitAndPush host repoPath plans expectedDiffHash settings) := by
  unfold Publication.executeMultiCommitAndPush
  refine Action.Keeps.bind (note_keeps _) fun _ => ?_
  apply Action.Keeps.ite
  · intro _
    exact Action.Keeps.throw _
  intro _
  cases firstDuplicate [] (plans.flatMap (·.files)) with
  | some file => exact Action.Keeps.throw _
  | none =>
    refine Action.Keeps.bind (h.guardDiffHash _ _) fun _ => ?_
    refine Action.Keeps.bind (unwrapped (h.shell _ _ (.inl rfl))) fun _ => ?_
    refine Action.Keeps.bind (unwrapped (h.reset repoPath)) fun _ => ?_
    exact Action.Keeps.bind (h.commitPlans hrepo _ _ _ _ _) fun _ => h.pushCommits _ _ _ _

/-! ## Retries -/

theorem queueRetry (repoId : String) (repoState : RepoState) (errors : List FeedbackError) (options : QueueRetryOptions)
    (settings : Settings) (systemPrompt : String) (failedPlans : List CommitPlan) :
    Action.Keeps I (queueRetry host repoId repoState errors options settings systemPrompt failedPlans) :=
  queueRetry_keeps repoId repoState errors options settings systemPrompt failedPlans
    fun _ hissued => h.shell _ _ (.inr ⟨_, hissued⟩)

theorem handleValidationRetry (repoId : String) (settings : Settings) (systemPrompt : String) (repoState : RepoState)
    (plans : List CommitPlan) :
    Action.Keeps I (handleValidationRetry host repoId settings systemPrompt repoState plans) := by
  unfold Publication.handleValidationRetry
  simp only
  apply Action.Keeps.ite
  · intro _
    exact Action.Keeps.pure _
  intro _
  apply Action.Keeps.ite
  · intro _
    exact Action.Keeps.pure _
  intro _
  apply Action.Keeps.ite
  · intro _
    refine Action.Keeps.bind (h.queueRetry _ _ _ _ _ _ _) fun result => ?_
    cases result with
    | queued repoState job => exact Action.Keeps.pure _
    | loopDetected repoState =>
      refine Action.Keeps.bind ?_ fun _ => Action.Keeps.pure _
      unfold afterRepeatedRepair
      apply Action.Keeps.ite
      · intro _
        refine Action.Keeps.bind (h.queueRetry _ _ _ _ _ _ _) fun result => ?_
        cases result with
        | queued repoState job => exact Action.Keeps.pure _
        | loopDetected repoState => exact Action.Keeps.pure _
      · intro _
        exact Action.Keeps.pure _
  intro _
  apply Action.Keeps.ite
  · intro _
    refine Action.Keeps.bind (h.queueRetry _ _ _ _ _ _ _) fun result => ?_
    cases result with
    | queued repoState job => exact Action.Keeps.pure _
    | loopDetected repoState => exact Action.Keeps.pure _
  · intro _
    exact Action.Keeps.pure _

theorem restage (request : RetryRequest) : Action.Keeps I (restage host request) := by
  unfold Publication.restage
  simp only
  refine Action.Keeps.bind (reconstructRemainingDiff_keeps fun _ hissued => h.shell _ _ (.inr ⟨_, hissued⟩)) fun _ => ?_
  refine Action.Keeps.bind (h.shell _ _ (.inr ⟨_, issued_stageCommand _⟩)).outcome fun staged => ?_
  cases staged with
  | ok _ => exact Action.Keeps.pure _
  | error _ => exact Action.Keeps.pure _

theorem finishRetry (settings : Settings) (systemPrompt repoId : String) (retry : Retry) :
    Action.Keeps I (finishRetry host settings systemPrompt repoId retry) := by
  cases retry with
  | asked request => exact Action.Keeps.bind (h.queueRetry _ _ _ _ _ _ _) fun _ => Action.Keeps.pure _
  | restaged request found =>
    refine Action.Keeps.bind ?_ fun _ => Action.Keeps.pure _
    unfold readRestaged
    apply Action.Keeps.ite
    · intro _
      exact Action.Keeps.attempt (h.shell _ _ (.inr ⟨[], .nameless (by decide)⟩)) fun _ => Action.Keeps.pure _
    · intro _
      exact Action.Keeps.pure _

theorem handlePublishError (repoState : RepoState) (commits : List CommitPlan) (err : PublishError) :
    Action.Keeps (Below I) (handlePublishError host repoState commits err) := by
  unfold Publication.handlePublishError
  simp only
  cases classifyError err (hasCommittedShas (mergeFailure repoState err).1) with
  | success => exact Action.Keeps.pure _
  | fail error => exact Action.Keeps.pure _
  | retry error =>
    apply Action.Keeps.ite
    · intro _
      refine Action.Keeps.bind (lifted_keeps ?_) fun _ => Action.Keeps.pure _
      exact Action.Keeps.bind (h.shell _ _ (.inr ⟨[], .nameless (by decide)⟩)).outcome fun _ => Action.Keeps.pure _
    · intro _
      exact Action.Keeps.pure _

/-! ## Push-only repositories -/

theorem readPatches (repoPath : String) (outgoingShas : List String) :
    Action.Keeps I (readPatches host repoPath outgoingShas) := by
  induction outgoingShas with
  | nil => exact Action.Keeps.pure _
  | cons sha outgoingShas ih =>
    exact Action.Keeps.bind (h.gitExecArgs fun hcommit => absurd hcommit (by simp)) fun _ =>
      Action.Keeps.bind ih fun _ => Action.Keeps.pure _

theorem readRemoteDestinationSha (pushEndpoint : ResolvedPushEndpoint) (snapshot : TrackedPushSnapshot) :
    Action.Keeps I (readRemoteDestinationSha host pushEndpoint snapshot) := by
  refine Action.Keeps.attempt ?_ fun _ => Action.Keeps.throw _
  have hread : Action.Keeps I (pushEndpoint.readOptionalDestinationSha host snapshot.destinationRef) :=
    Action.Keeps.bind (Action.Keeps.bind (h.git _ _ _ fun hcommit => absurd hcommit (by simp)) fun _ => Action.Keeps.pure _)
      fun _ => Action.Keeps.pure _
  refine Action.Keeps.bind hread fun sha => ?_
  cases sha with
  | some sha => exact Action.Keeps.pure _
  | none => exact Action.Keeps.throw _

theorem revalidateTrackedPushSnapshot (repoPath : String) (snapshot : TrackedPushSnapshot)
    (pushEndpoint : ResolvedPushEndpoint) :
    Action.Keeps I (revalidateTrackedPushSnapshot host repoPath snapshot pushEndpoint) := by
  have hlocal : ∀ cwd args processConfig, localCommand args = true →
      Action.Keeps I (host.execFileGit cwd args processConfig) := by
    intro cwd args processConfig hargs
    refine h.git _ _ _ fun hcommit => ?_
    rw [localCommand, hcommit] at hargs
    exact absurd hargs (by decide)
  unfold Publication.revalidateTrackedPushSnapshot
  refine Action.Keeps.bind (h.gitExecArgs fun hcommit => absurd hcommit (by decide)) fun _ => ?_
  refine Action.Keeps.bind (h.gitExecArgs fun hcommit => absurd hcommit (by decide)) fun _ => ?_
  refine Action.Keeps.bind (h.gitExecArgs fun hcommit => absurd hcommit (by decide)) fun _ => ?_
  apply Action.Keeps.ite
  · intro _
    exact Action.Keeps.throw _
  intro _
  refine Action.Keeps.bind (resolveTrackedPushDestination_keeps hlocal _ _) fun _ => ?_
  apply Action.Keeps.ite
  · intro _
    exact Action.Keeps.throw _
  intro _
  refine Action.Keeps.bind (h.readRemoteDestinationSha _ _) fun _ => ?_
  apply Action.Keeps.ite
  · intro _
    exact Action.Keeps.pure _
  intro _
  apply Action.Keeps.ite
  · intro _
    exact Action.Keeps.throw _
  · intro _
    exact Action.Keeps.pure _

theorem pushTrackedSnapshot (repoPath : String) (snapshot : TrackedPushSnapshot) :
    Action.Keeps I (pushTrackedSnapshot host repoPath snapshot) := by
  have hlocal : ∀ cwd args processConfig, localCommand args = true →
      Action.Keeps I (host.execFileGit cwd args processConfig) := by
    intro cwd args processConfig hargs
    refine h.git _ _ _ fun hcommit => ?_
    rw [localCommand, hcommit] at hargs
    exact absurd hargs (by decide)
  unfold Publication.pushTrackedSnapshot
  refine Action.Keeps.bind (Action.Keeps.attempt (resolveSinglePushEndpoint_keeps hlocal h.randomUUID _ _)
    fun _ => Action.Keeps.throw _) fun pushEndpoint => ?_
  apply Action.Keeps.ite
  · intro _
    exact Action.Keeps.throw _
  intro _
  refine Action.Keeps.bind (h.revalidateTrackedPushSnapshot _ _ _) fun found => ?_
  cases found with
  | alreadyPushed => exact Action.Keeps.pure _
  | pending =>
    refine Action.Keeps.bind (Action.Keeps.attempt (pushExact_keeps (fun _ _ _ hpush =>
      h.git _ _ _ fun hcommit => absurd (hpush ▸ hcommit) (by decide)) _ _ _ _) fun _ => Action.Keeps.throw _) fun _ => ?_
    refine Action.Keeps.bind (h.readRemoteDestinationSha _ _) fun _ => ?_
    apply Action.Keeps.ite
    · intro _
      exact Action.Keeps.throw _
    · intro _
      exact Action.Keeps.pure _

theorem validateAndPushTrackedSnapshot (repoPath : String) (snapshot : TrackedPushSnapshot) (settings : Settings) :
    Action.Keeps (Below I) (validateAndPushTrackedSnapshot host repoPath snapshot settings) := by
  have hrest : Action.Keeps (Below I) (do
      lifted (assertOutgoingShasMatchSnapshot host repoPath snapshot)
      let patches ← lifted (readCommitPatches host repoPath snapshot.outgoingShas)
      validateDiffForSecrets repoPath patches
      lifted (Publication.pushTrackedSnapshot host repoPath snapshot)) := by
    refine Action.Keeps.bind (lifted_keeps ?_) fun _ => ?_
    · unfold assertOutgoingShasMatchSnapshot
      refine Action.Keeps.bind (Action.Keeps.attempt (h.gitExecArgs fun hcommit => absurd hcommit (by simp))
        fun _ => Action.Keeps.throw _) fun _ => ?_
      refine Action.Keeps.bind (h.gitExecArgs fun hcommit => absurd hcommit (by simp)) fun _ => ?_
      apply Action.Keeps.ite
      · intro _
        exact Action.Keeps.throw _
      · intro _
        exact Action.Keeps.pure _
    · refine Action.Keeps.bind (lifted_keeps (Action.Keeps.bind (h.readPatches _ _) fun _ => Action.Keeps.pure _))
        fun patches => ?_
      refine Action.Keeps.bind ?_ fun _ => lifted_keeps (h.pushTrackedSnapshot _ _)
      unfold validateDiffForSecrets
      apply Action.Keeps.ite
      · intro _
        exact Action.Keeps.throw _
      · intro _
        exact note_keeps _
  unfold Publication.validateAndPushTrackedSnapshot
  apply Action.Keeps.ite
  · intro _
    exact Action.Keeps.pure _
  intro _
  apply Action.Keeps.ite
  · intro _
    exact Action.Keeps.bind (lifted_keeps (h.runTestCascade _)) fun _ => hrest
  · intro _
    exact hrest

theorem publishCheckpoint (repoState : RepoState) (snapshot : TrackedPushSnapshot) (result : CommitJobResult)
    (settings : Settings) : Action.Keeps (Below I) (publishCheckpoint host repoState snapshot result settings) := by
  cases result with
  | error id error => exact Action.Keeps.throw _
  | success id commits =>
    unfold Publication.publishCheckpoint
    apply Action.Keeps.ite
    · intro _
      exact Action.Keeps.throw _
    intro _
    refine Action.Keeps.bind (h.validateAndPushTrackedSnapshot _ _ _) fun _ => ?_
    apply Action.Keeps.ite
    · intro _
      exact Action.Keeps.throw _
    · intro _
      exact Action.Keeps.pure _

theorem handlePushOnlyCheckpointResult (repoState : RepoState) (result : CommitJobResult) (settings : Settings) :
    Action.Keeps (Below I) (handlePushOnlyCheckpointResult host repoState result settings) := by
  unfold Publication.handlePushOnlyCheckpointResult
  cases repoState.pushSnapshot with
  | none => exact Action.Keeps.throw _
  | some snapshot =>
    refine Action.Keeps.bind (h.publishCheckpoint _ _ _ _).outcome fun r => ?_
    cases r with
    | ok pushedShas => exact Action.Keeps.pure _
    | error error => exact Action.Keeps.pure _

/-! ## One result -/

theorem publishPlans (settings : Settings) (repoId : String) {repoState : RepoState} (hrepo : commits repoState.repository)
    (plans : List CommitPlan) : Action.Keeps (Below I) (publishPlans host settings repoId repoState plans) := by
  unfold Publication.publishPlans
  apply Action.Keeps.ite
  · intro _
    exact Action.Keeps.throw _
  intro _
  refine Action.Keeps.bind (h.executeMultiCommitAndPush hrepo _ _ _).outcome fun r => ?_
  cases r with
  | ok published => exact Action.Keeps.pure _
  | error err => exact h.handlePublishError _ _ _

theorem attemptResult (settings : Settings) (systemPrompt repoId : String) {repoState : RepoState}
    (hrepo : commits repoState.repository) (result : CommitJobResult) :
    Action.Keeps (Below I) (attemptResult host settings systemPrompt repoId repoState result) := by
  unfold Publication.attemptResult
  apply Action.Keeps.ite
  · intro _
    exact Action.Keeps.bind (h.handlePushOnlyCheckpointResult _ _ _) fun _ => Action.Keeps.pure _
  intro _
  cases result with
  | error id error => exact Action.Keeps.pure _
  | success id commits =>
    refine Action.Keeps.bind (lifted_keeps (h.handleValidationRetry _ _ _ _ _)) fun attempt => ?_
    cases attempt with
    | some attempt => exact Action.Keeps.pure _
    | none => exact h.publishPlans _ _ hrepo _

end KeptBy

end GitCommitsPush.Publication
