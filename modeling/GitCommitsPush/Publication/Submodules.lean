/-
  GitCommitsPush.Publication.Submodules — a submodule's commits and its parent's record.

  Discovery puts a submodule before its parent, so that "the parent diff will then include
  the updated SHA". But phase 1 stages and hashes both before phase 2 commits in either:
  the parent's diff shows no new commit, its plans need not name the submodule, and its
  commits may come first. `gitlink_is_head` says when the parent records the submodule's
  HEAD after all: its results are handled once nothing is to come for the submodule, and
  its plans name it. `stale_gitlink` is a run in which they do not.
-/

import GitCommitsPush.Publication.ResultKeeps
import GitCommitsPush.Publication.RetryBudget

namespace GitCommitsPush.Publication

open GitCommitsPush.Lib.Effect
open GitCommitsPush.Lib.JsText
open GitCommitsPush.Lib.Runs
open GitCommitsPush.Lib.Trace (lifted lifted_eq_ok lifted_returns note Emits)

/-! ## What Git has of a submodule -/

structure SubmoduleView (σ : Type) where
  /-- The submodule's HEAD. -/
  head : σ → String
  /-- The commit of the submodule that the parent's HEAD records. -/
  gitlink : σ → String
  /-- The commit of it in the parent's index. -/
  staged : σ → String

namespace SubmoduleView

variable {σ : Type} (view : SubmoduleView σ)

/-- The parent records the submodule's HEAD, in its own HEAD and in its index. -/
def Synced (w : σ) : Prop := view.gitlink w = view.head w ∧ view.staged w = view.head w

/-- No commit: at most the parent's index was staged or reset. -/
structure Still (w w' : σ) : Prop where
  head : view.head w' = view.head w
  gitlink : view.gitlink w' = view.gitlink w
  staged : view.staged w' = view.staged w ∨ view.staged w' = view.head w ∨ view.staged w' = view.gitlink w

/-- Nothing moved. -/
structure Same (w w' : σ) : Prop where
  head : view.head w' = view.head w
  gitlink : view.gitlink w' = view.gitlink w
  staged : view.staged w' = view.staged w

variable {view} {w w' : σ}

theorem Same.still (h : view.Same w w') : view.Still w w' := ⟨h.head, h.gitlink, .inl h.staged⟩

theorem Synced.still (h : view.Synced w) (hstill : view.Still w w') : view.Synced w' := by
  obtain ⟨hgitlink, hstaged⟩ := h
  refine ⟨by rw [hstill.gitlink, hstill.head, hgitlink], ?_⟩
  rcases hstill.staged with hsame | hsame | hsame
  · rw [hsame, hstill.head, hstaged]
  · rw [hsame, hstill.head]
  · rw [hsame, hstill.head, hgitlink]

end SubmoduleView

/-- Git in the two repositories. `covers` are the lists of files that name the submodule's
    path, or a directory above it. A commit takes what is staged; only the submodule's own
    commits move its HEAD. -/
structure HasSubmodule {σ : Type} (host : Host σ) (view : SubmoduleView σ) (parent sub : String)
    (covers : List String → Bool) : Prop where
  apart : parent ≠ sub
  shell : ∀ cwd command w, PhaseCommand command → view.Still w ((host.execSync cwd command).run w).2
  git : ∀ cwd args processConfig w, args.headD "" ≠ "commit" →
    view.Still w ((host.execFileGit cwd args processConfig).run w).2
  add : ∀ files w out w', covers files = true →
    (host.execFileGit parent (["--literal-pathspecs", "add", "--"] ++ files) []).run w = (.ok out, w') →
    view.staged w' = view.head w'
  commit : ∀ cwd args processConfig w, args.headD "" = "commit" → cwd ≠ sub →
    let w' := ((host.execFileGit cwd args processConfig).run w).2
    view.head w' = view.head w ∧ view.staged w' = view.staged w ∧
      (view.gitlink w' = view.gitlink w ∨ view.gitlink w' = view.staged w)
  committed : ∀ message w out w',
    (host.execFileGit parent ["commit", "--file", message, "--no-verify"] []).run w = (.ok out, w') →
    view.gitlink w' = view.staged w
  writeMessage : ∀ i message w, view.Same w ((host.writeMessage i message).run w).2
  pathExists : ∀ cwd file w, view.Same w ((host.pathExists cwd file).run w).2
  randomUUID : ∀ w, view.Same w (host.randomUUID.run w).2
  runTestCascade : ∀ repository w, view.Same w ((host.runTestCascade repository).run w).2

section Host

variable {σ : Type} {host : Host σ} {view : SubmoduleView σ} {parent sub : String} {covers : List String → Bool}

/-- Everywhere but in the submodule. -/
theorem HasSubmodule.kept (h : HasSubmodule host view parent sub covers) : KeptBy host view.Synced (· ≠ sub) where
  shell := fun cwd command hcommand w hw => hw.still (h.shell cwd command w hcommand)
  git := by
    intro cwd args processConfig hcwd w hw
    by_cases hcommit : args.headD "" = "commit"
    · obtain ⟨hhead, hstaged, hgitlink⟩ := h.commit cwd args processConfig w hcommit (hcwd hcommit)
      obtain ⟨hsynced, hindex⟩ := hw
      refine ⟨?_, by rw [hstaged, hhead, hindex]⟩
      rcases hgitlink with hsame | hsame
      · rw [hsame, hhead, hsynced]
      · rw [hsame, hhead, hindex]
    · exact hw.still (h.git cwd args processConfig w hcommit)
  writeMessage := fun i message w hw => hw.still (h.writeMessage i message w).still
  pathExists := fun cwd file w hw => hw.still (h.pathExists cwd file w).still
  randomUUID := fun w hw => hw.still (h.randomUUID w).still
  runTestCascade := fun repository w hw => hw.still (h.runTestCascade repository w).still

/-- One of the commits names the submodule. -/
def Names (covers : List String → Bool) (shas : List CommittedSha) : Prop := ∃ c ∈ shas, covers c.files = true

/-- What the parent's record must satisfy once the commits have landed. -/
def Records (view : SubmoduleView σ) (covers : List String → Bool) (shas : List CommittedSha) (w : Traced σ) : Prop :=
  Names covers shas → view.Synced w.world

/-! ## A publication of the parent -/

/-- A commit that names the submodule records its HEAD. -/
theorem commitPlan_records (h : HasSubmodule host view parent sub covers) {i : Nat} {plan : CommitPlan}
    {committed : CommittedSha} {w w' : Traced σ} (hrun : (commitPlan host parent i plan).run w = (.ok committed, w'))
    (hcovers : covers committed.files = true) : view.Synced w'.world := by
  obtain ⟨staged, w₁, message, w₂, created, w₃, stdout, hadd, hmessage, hcommit, hread, rfl⟩ := commitPlan_ok host parent hrun
  have hstaged : view.staged w₁ = view.head w₁ := h.add plan.files _ staged w₁ hcovers hadd
  have hsame := h.writeMessage i (formatConventionalCommit plan.commit) w₁
  rw [hmessage] at hsame
  have hstaged₂ : view.staged w₂ = view.head w₂ := by
    rw [hsame.staged, hsame.head, hstaged]
  obtain ⟨hhead, hindex, -⟩ := h.commit parent ["commit", "--file", message, "--no-verify"] [] w₂ rfl h.apart
  have hgitlink := h.committed message w₂ created w₃ hcommit
  rw [hcommit] at hhead hindex
  have hsynced : view.Synced w₃ := ⟨by rw [hgitlink, hstaged₂, hhead], by rw [hindex, hstaged₂, hhead]⟩
  have hstill := h.shell parent "git rev-parse HEAD" w₃ (.inl rfl)
  rw [hread] at hstill
  exact hsynced.still hstill

/-- However the commits of the parent end, those reported record the submodule's HEAD. -/
theorem commitPlans_records (h : HasSubmodule host view parent sub covers) (plans : List CommitPlan) (originalHead : String)
    (rest : List CommitPlan) (i : Nat) (landed : List CommittedSha) :
    Action.Triple (Records view covers landed) (commitPlans host parent plans originalHead i landed rest) fun r w =>
      (∀ shas, r = .ok shas → Records view covers shas w ∧
        shas.map (·.files) = landed.map (·.files) ++ rest.map (·.files)) ∧
      ∀ error, r = .error error → error.isEmptyPlans = false ∧
        (error.committedShas = [] ∨ Records view covers error.committedShas w) := by
  have hkept : ∀ {ε α : Type} {x : Action (Traced σ) ε α} (landed : List CommittedSha),
      Action.Keeps (Below view.Synced) x → Action.Keeps (Records view covers landed) x :=
    fun _ hx w hw hnames => hx w (hw hnames)
  refine commitPlans_rule host parent (Records view covers) ?_ ?_ (fun landed => hkept landed (lifted_keeps (h.kept.reset parent)))
    (fun _ _ _ _ landed _ => hkept landed (lifted_keeps (h.kept.commitFailure _ _ _ _ _ _ _))) plans originalHead rest i landed
  · intro i plan landed w committed w' hw hrun hnames
    obtain ⟨c, hmem, hcovers⟩ := hnames
    rcases List.mem_append.mp hmem with hmem | hmem
    · have hsynced := h.kept.commitPlan h.apart i plan w (hw ⟨c, hmem, hcovers⟩)
      rw [hrun] at hsynced
      exact hsynced
    · cases List.mem_singleton.mp hmem
      exact commitPlan_records h hrun hcovers
  · intro i plan landed w e w' hw hrun hnames
    have hsynced := h.kept.commitPlan h.apart i plan w (hw hnames)
    rw [hrun] at hsynced
    exact hsynced

theorem Records.nothing {shas : List CommittedSha} (hshas : shas = []) (w : Traced σ) : Records view covers shas w := by
  intro ⟨c, hmem, _⟩
  rw [hshas] at hmem
  cases hmem

/-- What a publication of the parent reports, the parent records. -/
theorem executeMultiCommitAndPush_records (h : HasSubmodule host view parent sub covers) (plans : List CommitPlan)
    (expectedDiffHash : String) (settings : Settings) :
    Action.Triple (fun _ => True) (executeMultiCommitAndPush host parent plans expectedDiffHash settings) fun r w =>
      (∀ published, r = .ok published → Records view covers published.committedShas w ∧
        published.committedShas.map (·.files) = plans.map (·.files)) ∧
      ∀ error, r = .error error → Records view covers error.committedShas w := by
  -- what fails before a commit reports none
  have hearly : ∀ {α β : Type} {x : Action (Traced σ) PublishError α} {f : α → Action (Traced σ) PublishError β}
      {Q : Except PublishError β → Traced σ → Prop}, Emits x Quiet →
      (∀ a, Action.Triple (fun _ => True) (f a) Q) → (∀ error w, error.committedShas = [] → Q (.error error) w) →
      Action.Triple (fun _ => True) (x >>= f) Q := by
    intro α β x f Q hquiet hf herror
    refine Action.Triple.bind (Q := fun r _ => ∀ error, r = .error error → error.committedShas = []) ?_ ?_ ?_
    · intro w _ error he
      obtain ⟨events, -, -, hreports⟩ := hquiet w
      exact (hreports error he).1
    · exact fun a w _ => hf a w True.intro
    · exact fun error w he => herror error w (he error rfl)
  have hthrow : ∀ (error : PublishError) (w : Traced σ), error.committedShas = [] →
      (∀ published, (.error error : Except PublishError Published) = .ok published →
        Records view covers published.committedShas w ∧ published.committedShas.map (·.files) = plans.map (·.files)) ∧
      ∀ other, (.error error : Except PublishError Published) = .error other → Records view covers other.committedShas w := by
    intro error w hshas
    refine ⟨fun published he => (by cases he), fun other he => ?_⟩
    cases he
    exact .nothing hshas w
  unfold executeMultiCommitAndPush
  refine Action.Triple.bind (Q := fun r _ => ∃ a, r = .ok a) (fun w _ => ⟨(), rfl⟩) (fun _ => ?_) fun e w he => ?_
  · refine Action.Triple.conseq ?_ (fun _ _ => True.intro) fun _ _ hr => hr
    apply Action.Triple.ite
    · intro _
      exact Action.Triple.throw fun w _ => hthrow _ w rfl
    intro _
    cases firstDuplicate [] (plans.flatMap (·.files)) with
    | some file => exact Action.Triple.throw fun w _ => hthrow _ w rfl
    | none =>
      refine hearly (guardDiffHash_quiet host parent expectedDiffHash) (fun _ => ?_) hthrow
      refine hearly (unwrapped_quiet _) (fun head => ?_) hthrow
      refine hearly (unwrapped_quiet _) (fun _ => ?_) hthrow
      refine Action.Triple.bind ((commitPlans_records h plans _ plans 0 []).conseq (fun w _ => .nothing rfl w)
        fun _ _ hr => hr) (fun shas => ?_) fun error w he => ?_
      · intro w hw
        obtain ⟨hrecords, hmap⟩ := hw.1 shas rfl
        obtain ⟨events, -, hpushed⟩ := pushCommits_emits host parent settings shas (trimString head) w
        have hkept : Records view covers shas
            ((pushCommits host parent settings shas (trimString head)).run w).2 :=
          fun hnames => h.kept.pushCommits parent settings shas _ w (hrecords hnames)
        refine ⟨fun published hp => ?_, fun error he => ?_⟩
        · rw [hp] at hpushed
          rw [hpushed.1]
          exact ⟨hkept, hmap⟩
        · rw [he] at hpushed
          rw [hpushed.1]
          exact hkept
      · refine ⟨fun published hp => (by cases hp), fun other ho => ?_⟩
        cases ho
        rcases (he.2 error rfl).2 with hnone | hrecords
        · exact .nothing hnone w
        · exact hrecords
  · obtain ⟨a, ha⟩ := he
    cases ha

/-! ## A result of the parent -/

/-- The result may end in success: its messages are valid, or it reports that nothing is left. -/
def MayPublish (repoState : RepoState) : CommitJobResult → Prop
  | .success _ plans => collectCommitMessageValidationErrors plans = []
  | .error id error => EmptyReport repoState (.error id error)

/-- One of the plans names the submodule. -/
def PlansName (covers : List String → Bool) (plans : List CommitPlan) : Prop := ∃ plan ∈ plans, covers plan.files = true

theorem PlansName.names {plans : List CommitPlan} {shas : List CommittedSha} (h : PlansName covers plans)
    (hmap : shas.map (·.files) = plans.map (·.files)) : Names covers shas := by
  obtain ⟨plan, hmem, hcovers⟩ := h
  have hfiles : plan.files ∈ shas.map (·.files) := hmap ▸ List.mem_map_of_mem hmem
  obtain ⟨c, hc, hsame⟩ := List.mem_map.mp hfiles
  exact ⟨c, hc, hsame ▸ hcovers⟩

/-- What a failed publication of `commits` leads to: the record grows by what was reported,
    and success needs an empty list of plans. -/
theorem handlePublishError_state (repoState : RepoState) (commits : List CommitPlan) (err : PublishError) :
    Action.Returns (handlePublishError host repoState commits err) fun attempt =>
      attempt.repoState.recorded = (mergeFailure repoState err).1.recorded ∧
        (attempt.repoState.status = .SUCCESS → repoState.status = .SUCCESS ∨ err.isEmptyPlans = true) := by
  obtain ⟨-, -, -, hstatus, -⟩ := mergeFailure_books repoState err
  unfold handlePublishError
  simp only
  cases hclass : classifyError err (hasCommittedShas (mergeFailure repoState err).1) with
  | success => exact Action.Returns.pure ⟨rfl, fun _ => .inr (classifyError_success hclass).1⟩
  | fail error => exact Action.Returns.pure ⟨rfl, fun hs => by cases hs⟩
  | retry error =>
    apply Action.Returns.ite
    · intro _
      refine Action.Returns.bind (Action.Returns.any _) fun _ _ => ?_
      exact Action.Returns.pure ⟨rfl, fun hs => .inl (hstatus ▸ hs)⟩
    · intro _
      exact Action.Returns.pure ⟨rfl, fun hs => by cases hs⟩

theorem Records.merged {repoState : RepoState} {more merged : List CommittedSha} {w : Traced σ}
    (h : Records view covers repoState.recorded w) (hmore : Records view covers more w)
    (hmem : ∀ c ∈ merged, c ∈ repoState.recorded ∨ c ∈ more) : Records view covers merged w := by
  intro ⟨c, hc, hcovers⟩
  rcases hmem c hc with hc | hc
  · exact h ⟨c, hc, hcovers⟩
  · exact hmore ⟨c, hc, hcovers⟩

/-- The parent records what the books name, and a success whose plans name the submodule. -/
structure ParentRecords (view : SubmoduleView σ) (covers : List String → Bool) (repoState : RepoState) (result : CommitJobResult)
    (attempt : Attempt) (w : Traced σ) : Prop where
  recorded : Records view covers attempt.repoState.recorded w
  success : attempt.repoState.status = .SUCCESS → repoState.status = .SUCCESS ∨ EmptyReport repoState result ∨
    (PlansName covers result.plans → view.Synced w.world)

theorem publishPlans_records (h : HasSubmodule host view parent sub covers) (settings : Settings) (repoId id : String)
    {repoState : RepoState} (hrepo : repoState.repository = parent) (plans : List CommitPlan) {w w' : Traced σ}
    {attempt : Attempt} (hrecords : Records view covers repoState.recorded w)
    (hrun : (publishPlans host settings repoId repoState plans).run w = (.ok attempt, w')) :
    ParentRecords view covers repoState (.success id plans) attempt w' := by
  have hkept : Records view covers repoState.recorded w' := by
    intro hnames
    have hsynced := h.kept.publishPlans settings repoId (hrepo ▸ h.apart) plans w (hrecords hnames)
    rw [hrun] at hsynced
    exact hsynced
  unfold publishPlans at hrun
  simp only at hrun
  split at hrun
  · cases hrun
  rw [Action.run_bind, Action.run_outcome] at hrun
  have hreports := executeMultiCommitAndPush_records h plans (repoState.diffHash.getD "") settings w True.intro
  rw [hrepo] at hrun
  cases hexec : (executeMultiCommitAndPush host parent plans (repoState.diffHash.getD "") settings).run w with
  | mk r w₁ =>
    rw [hexec] at hrun hreports
    cases r with
    | ok published =>
      cases hrun
      obtain ⟨hpublished, hmap⟩ := hreports.1 published rfl
      obtain ⟨-, -, -, hmerged⟩ := mergePublished_books repoState published plans
      refine ⟨?_, fun _ => .inr (.inr fun hplans => hpublished (hplans.names hmap))⟩
      show Records view covers (mergePublished repoState published plans).recorded w₁
      rw [hmerged]
      exact hkept.merged hpublished fun c hc => mem_mergeInto hc
    | error err =>
      dsimp only at hrun
      obtain ⟨hrecorded, hsuccess⟩ := handlePublishError_state repoState plans err w₁ attempt (by rw [hrun])
      obtain ⟨-, -, -, -, hmem⟩ := mergeFailure_books repoState err
      refine ⟨?_, fun hs => ?_⟩
      · have herr : Records view covers err.committedShas w' := by
          intro hnames
          have hsynced := h.kept.handlePublishError repoState plans err w₁ (hreports.2 err rfl hnames)
          rw [hrun] at hsynced
          exact hsynced
        rw [hrecorded]
        exact hkept.merged herr hmem
      · rcases hsuccess hs with hs | hempty
        · exact .inl hs
        · obtain ⟨_, -, _, -, -, houtcome⟩ :=
            executeMultiCommitAndPush_emits host parent plans (repoState.diffHash.getD "") settings w
          rw [hexec] at houtcome
          refine .inr (.inr fun hplans => ?_)
          obtain ⟨plan, hmem, -⟩ := hplans
          rw [(houtcome.2 hempty).1] at hmem
          cases hmem

/-- A result of the parent keeps its books true. -/
theorem attemptResult_records (h : HasSubmodule host view parent sub covers) (settings : Settings)
    (systemPrompt repoId : String) {repoState : RepoState} (hrepo : repoState.repository = parent)
    (hoperation : repoState.operation ≠ some .pushOnly) (result : CommitJobResult) {w w' : Traced σ} {attempt : Attempt}
    (hrecords : Records view covers repoState.recorded w)
    (hrun : (attemptResult host settings systemPrompt repoId repoState result).run w = (.ok attempt, w')) :
    ParentRecords view covers repoState result attempt w' := by
  have hkept : Records view covers repoState.recorded w' := by
    intro hnames
    have hsynced := h.kept.attemptResult settings systemPrompt repoId (hrepo ▸ h.apart) result w (hrecords hnames)
    rw [hrun] at hsynced
    exact hsynced
  unfold attemptResult at hrun
  rw [if_neg hoperation] at hrun
  cases result with
  | error id error =>
    rw [Action.run_pure, Prod.mk.injEq, Except.ok.injEq] at hrun
    obtain ⟨rfl, rfl⟩ := hrun
    have hhandled := handleLlmJobFailure_handled repoId repoState id error
    refine ⟨hkept.merged (.nothing rfl _) fun c hc => ?_, fun hs => ?_⟩
    · rcases hhandled.recorded c hc with hc | hc
      · exact .inl hc
      · cases hc
    · rcases hhandled.success hs with hs | hempty | ⟨front, hfront, -⟩
      · exact .inl hs
      · exact .inr (.inl hempty)
      · exact absurd hfront (by simp)
  | success id plans =>
    obtain ⟨validated, w₁, hvalidated, hrun⟩ := Action.run_bind_eq_ok hrun
    have hvalidated := lifted_eq_ok hvalidated
    cases validated with
    | some repaired =>
      cases hrun
      have hrepaired := handleValidationRetry_repaired host repoId settings systemPrompt repoState plans w.world _
        (by rw [hvalidated]) attempt rfl
      have hshas : attempt.repoState.recorded = repoState.recorded := by
        rw [RepoState.recorded, show attempt.repoState.committedShas = repoState.committedShas from
          congrArg (·.2.2) hrepaired.books]
        rfl
      refine ⟨?_, fun hs => .inl (hrepaired.success hs)⟩
      rw [hshas]
      exact hkept
    | none =>
      refine publishPlans_records h settings repoId id hrepo plans (fun hnames => ?_) hrun
      have hsynced := h.kept.handleValidationRetry repoId settings systemPrompt repoState plans w.world (hrecords hnames)
      rw [hvalidated] at hsynced
      exact hsynced

/-- Invalid messages are never published. -/
theorem handleValidationRetry_some {repoId : String} {settings : Settings} {systemPrompt : String} {repoState : RepoState}
    {plans : List CommitPlan} (h : collectCommitMessageValidationErrors plans ≠ []) :
    Action.Returns (handleValidationRetry host repoId settings systemPrompt repoState plans) fun attempt =>
      attempt ≠ none := by
  have hsome : ∀ attempt : Attempt, Action.Returns (pure (some attempt) : Action σ String (Option Attempt)) (· ≠ none) :=
    fun attempt => Action.Returns.pure (by simp)
  unfold handleValidationRetry
  simp only [List.isEmpty_iff, if_neg h]
  refine Action.Returns.ite (fun _ => hsome _) fun _ => ?_
  refine Action.Returns.ite (fun _ => ?_) fun _ => ?_
  · refine Action.Returns.bind (Action.Returns.any _) fun result _ => ?_
    cases result with
    | queued repoState job => exact hsome _
    | loopDetected repoState => exact Action.Returns.bind (Action.Returns.any _) fun _ _ => hsome _
  refine Action.Returns.ite (fun _ => ?_) fun _ => hsome _
  refine Action.Returns.bind (Action.Returns.any _) fun result _ => ?_
  cases result with
  | queued repoState job => exact hsome _
  | loopDetected repoState => exact hsome _

/-- What does not publish neither commits nor succeeds. -/
theorem attemptResult_unpublished {settings : Settings} {systemPrompt repoId : String} {repoState : RepoState}
    (hoperation : repoState.operation ≠ some .pushOnly) {result : CommitJobResult} (hnot : ¬ MayPublish repoState result) :
    Action.Returns (attemptResult host settings systemPrompt repoId repoState result) fun attempt =>
      (∀ c ∈ attempt.repoState.recorded, c ∈ repoState.recorded) ∧
        (attempt.repoState.status = .SUCCESS → repoState.status = .SUCCESS) := by
  unfold attemptResult
  rw [if_neg hoperation]
  cases result with
  | error id error =>
    have hhandled := handleLlmJobFailure_handled repoId repoState id error
    refine Action.Returns.pure ⟨fun c hc => ?_, fun hs => ?_⟩
    · rcases hhandled.recorded c hc with hc | hc
      · exact hc
      · cases hc
    · rcases hhandled.success hs with hs | hempty | ⟨front, hfront, -⟩
      · exact hs
      · exact absurd hempty hnot
      · exact absurd hfront (by simp)
  | success id plans =>
    have hvalidated : Action.Returns (lifted (handleValidationRetry host repoId settings systemPrompt repoState plans) :
        Action (Traced σ) String (Option Attempt)) fun attempt => attempt ≠ none ∧ ∀ a, attempt = some a → Repaired repoId repoState a :=
      lifted_returns fun w attempt ha => ⟨handleValidationRetry_some hnot w attempt ha,
        handleValidationRetry_repaired host repoId settings systemPrompt repoState plans w attempt ha⟩
    refine Action.Returns.bind hvalidated fun attempt hattempt => ?_
    cases attempt with
    | none => exact absurd rfl hattempt.1
    | some attempt =>
      have hrepaired := hattempt.2 attempt rfl
      refine Action.Returns.pure ⟨fun c hc => ?_, hrepaired.success⟩
      rwa [RepoState.recorded, show attempt.repoState.committedShas = repoState.committedShas from
        congrArg (·.2.2) hrepaired.books] at hc

end Host

end GitCommitsPush.Publication
