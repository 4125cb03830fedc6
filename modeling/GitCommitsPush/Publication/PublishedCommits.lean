/-
  GitCommitsPush.Publication.PublishedCommits — what a push takes along.

  Phase 1 scans what is staged; a push publishes HEAD with its whole history, so commits that
  were there before and that the destination lacks go out unscanned (`unscanned_commit_published`).
  `published_scanned` says when every commit that a publication adds to the destination was
  created from a scanned diff: whenever results are published, the hash on record is of a
  scanned diff, the planned paths keep what is staged of them, and each commit of HEAD is at
  the destination or was so created before.

  Nothing but the push reaches the remote: the rest of a publication is the same on a host
  whose pushes do nothing (`commitPlans_offline`).
-/

import GitCommitsPush.Publication.CommittedContent
import GitCommitsPush.Publication.CompleteRuns

namespace GitCommitsPush.Publication

open GitCommitsPush.Lib.Effect
open GitCommitsPush.Lib.JsText
open GitCommitsPush.Lib.Runs
open GitCommitsPush.Lib.Trace (lifted note)

/-! ## Off the remote -/

/-- The host with its pushes left out. -/
def Host.offline {σ : Type} (host : Host σ) : Host σ :=
  { host with
    execFileGit := fun cwd args processConfig =>
      if args.headD "" = "push" then pure "" else host.execFileGit cwd args processConfig }

section Offline

variable {σ : Type} (host : Host σ)

theorem gitExecArgs_offline {args : List String} (hargs : args.headD "" ≠ "push") (cwd : String) :
    host.offline.gitExecArgs args cwd = host.gitExecArgs args cwd := by
  unfold Host.gitExecArgs Host.gitExecArgsWith Host.offline
  simp only [if_neg hargs]

theorem inspectPlannedFile_offline (cwd file : String) :
    inspectPlannedFile host.offline cwd file = inspectPlannedFile host cwd file := by
  have hraw : ∀ args : List String, args.headD "" ≠ "push" → host.offline.gitExecArgsRaw args cwd = host.gitExecArgsRaw args cwd := by
    intro args hargs
    unfold Host.gitExecArgsRaw Host.offline
    simp only [if_neg hargs]
  unfold inspectPlannedFile
  rw [hraw _ (by simp), hraw _ (by simp)]
  rfl

theorem inspectCommitPlanFileState_offline (cwd : String) (files : List String) :
    inspectCommitPlanFileState host.offline cwd files = inspectCommitPlanFileState host cwd files := by
  induction files with
  | nil => rfl
  | cons file files ih =>
    unfold inspectCommitPlanFileState
    rw [inspectPlannedFile_offline, ih]

theorem commitPlan_offline (repoPath : String) (i : Nat) (plan : CommitPlan) :
    commitPlan host.offline repoPath i plan = commitPlan host repoPath i plan := by
  unfold commitPlan
  rw [gitExecArgs_offline host (by simp)]
  simp only [gitExecArgs_offline host (show ["commit", "--file", _, "--no-verify"].headD "" ≠ "push" by simp)]
  rfl

/-- The commit loop does not push. -/
theorem commitPlans_offline (repoPath : String) (plans : List CommitPlan) (originalHead : String) (rest : List CommitPlan)
    (i : Nat) (landed : List CommittedSha) :
    commitPlans host.offline repoPath plans originalHead i landed rest =
      commitPlans host repoPath plans originalHead i landed rest := by
  induction rest generalizing i landed with
  | nil => rfl
  | cons plan rest ih =>
    unfold commitPlans commitFailure
    simp only [commitPlan_offline, inspectCommitPlanFileState_offline, ih]
    rfl

end Offline

section Host

variable {σ : Type} {host : Host σ} {view : HistoryView σ} {repository : String} {d : Option String}

/-- Off the remote the destination stays. -/
theorem HasHistory.dest_kept (h : HasHistory host view repository) : KeptBy host.offline (fun w => view.dest w = d) fun _ => True where
  shell := fun cwd command hcommand w hw => (h.shell cwd command w hcommand).dest.trans hw
  git := by
    intro cwd args processConfig _
    unfold Host.offline
    apply Action.Keeps.ite
    · intro _
      exact Action.Keeps.pure _
    intro hpush w hw
    by_cases hcommit : args.headD "" = "commit"
    · exact (h.commit cwd args processConfig w hcommit).1.trans hw
    · exact (h.git cwd args processConfig w hcommit hpush).dest.trans hw
  writeMessage := fun i message w hw => (h.writeMessage i message w).dest.trans hw
  pathExists := fun cwd file w hw => (h.pathExists cwd file w).dest.trans hw
  randomUUID := fun w hw => (h.randomUUID w).dest.trans hw
  runTestCascade := fun repository w hw => (h.runTestCascade repository w).dest.trans hw

/-- Every command adds to HEAD's history what it creates only. -/
theorem HasHistory.grown_kept (h : HasHistory host view repository) (head : String) (created : List String) :
    KeptBy host (view.Grown head created) fun _ => True where
  shell := fun cwd command hcommand w hw => hw.still (h.shell cwd command w hcommand).toStill
  git := by
    intro cwd args processConfig _ w hw
    by_cases hcommit : args.headD "" = "commit"
    · obtain ⟨-, hstill | ⟨hcreated, hreaches⟩⟩ := h.commit cwd args processConfig w hcommit
      · exact hw.still hstill
      · obtain ⟨new, hnew, hhistory⟩ := hw
        refine ⟨new ++ [view.head ((host.execFileGit cwd args processConfig).run w).2], ?_, fun c hc => ?_⟩
        · rw [hcreated, hnew, List.append_assoc]
        · rcases hreaches c hc with rfl | hbefore
          · exact .inr (List.mem_append_right _ List.mem_cons_self)
          · exact (hhistory c hbefore).imp_right (List.mem_append_left _)
    by_cases hpush : args.headD "" = "push"
    · exact hw.still (h.push cwd args processConfig w hpush)
    · exact hw.still (h.git cwd args processConfig w hcommit hpush).toStill
  writeMessage := fun i message w hw => hw.still (h.writeMessage i message w).toStill
  pathExists := fun cwd file w hw => hw.still (h.pathExists cwd file w).toStill
  randomUUID := fun w hw => hw.still (h.randomUUID w).toStill
  runTestCascade := fun repository w hw => hw.still (h.runTestCascade repository w).toStill

/-! ## Where a publication moves the destination -/

/-- The destination is where it was, or at HEAD. -/
def AtHead (view : HistoryView σ) (d : Option String) (w : σ) : Prop := view.dest w = d ∨ view.dest w = some (view.head w)

/-- Where neither a commit nor a push is made. -/
theorem HasHistory.atHead_kept (h : HasHistory host view repository) : KeptBy host.offline (AtHead view d) fun _ => False := by
  have hsame : ∀ w w', view.Same w w' → AtHead view d w → AtHead view d w' := by
    intro w w' hsame hw
    unfold AtHead
    rw [hsame.head, hsame.dest]
    exact hw
  exact {
    shell := fun cwd command hcommand w hw => hsame _ _ (h.shell cwd command w hcommand) hw
    git := by
      intro cwd args processConfig hcommit
      unfold Host.offline
      apply Action.Keeps.ite
      · intro _
        exact Action.Keeps.pure _
      · intro hpush w hw
        exact hsame _ _ (h.git cwd args processConfig w hcommit hpush) hw
    writeMessage := fun i message w hw => hsame _ _ (h.writeMessage i message w) hw
    pathExists := fun cwd file w hw => hsame _ _ (h.pathExists cwd file w) hw
    randomUUID := fun w hw => hsame _ _ (h.randomUUID w) hw
    runTestCascade := fun repository w hw => hsame _ _ (h.runTestCascade repository w) hw }

theorem executePush_atHead (h : HasHistory host view repository) (autoPush : Bool) :
    Action.Triple (fun w => view.dest w = d) (executePush host repository autoPush) fun _ w => AtHead view d w := by
  intro w hw
  have hrule : Action.Keeps (fun v => view.head v = view.head w ∧ (view.dest v = d ∨ view.dest v = some (view.head w)))
      (executePush host repository autoPush) := by
    have hsame : ∀ v v', view.Same v v' → (view.head v = view.head w ∧ (view.dest v = d ∨ view.dest v = some (view.head w))) →
        view.head v' = view.head w ∧ (view.dest v' = d ∨ view.dest v' = some (view.head w)) := by
      intro v v' hsame hv
      rw [hsame.head, hsame.dest]
      exact hv
    have hgit : ∀ cwd args processConfig, args.headD "" ≠ "commit" → args.headD "" ≠ "push" →
        Action.Keeps (fun v => view.head v = view.head w ∧ (view.dest v = d ∨ view.dest v = some (view.head w)))
          (host.execFileGit cwd args processConfig) :=
      fun cwd args processConfig hcommit hpush v hv => hsame _ _ (h.git cwd args processConfig v hcommit hpush) hv
    refine executePush_rule ?_ ?_ ?_ (fun v hv => hsame _ _ (h.randomUUID v) hv) autoPush
    · intro cwd args processConfig hlocal
      refine hgit cwd args processConfig ?_ ?_
      · intro hargs
        rw [localCommand, hargs] at hlocal
        exact absurd hlocal (by decide)
      · intro hargs
        rw [localCommand, hargs] at hlocal
        exact absurd hlocal (by decide)
    · intro cwd args processConfig hread
      exact hgit cwd args processConfig (by rw [hread]; decide) (by rw [hread]; decide)
    · -- the id pushed is HEAD's
      intro v sourceSha v' hv hrun pushEndpoint destinationRef destinationBaselineSha
      obtain ⟨out, v₁, hout, hpure⟩ := Action.run_bind_eq_ok hrun
      have hsource : sourceSha = view.head w := by
        cases hpure
        exact (h.readHead v out v' hout).trans hv.1
      subst hsource
      refine Action.Keeps.bind (Action.Keeps.bind ?_ fun _ => Action.Keeps.pure _) fun _ => Action.Keeps.pure _
      intro u hu
      obtain ⟨hhead, hdest⟩ := hu
      have hpushed := h.pushHead pushEndpoint.repoPath
        ("--force-with-lease=" ++ destinationRef ++ ":" ++ destinationBaselineSha.getD "") pushEndpoint.ephemeralRemote
        destinationRef pushEndpoint.processConfig u
      have hstill := h.push pushEndpoint.repoPath ["push", "--force-with-lease=" ++ destinationRef ++ ":" ++
        destinationBaselineSha.getD "", "--", pushEndpoint.ephemeralRemote, view.head w ++ ":" ++ destinationRef]
        pushEndpoint.processConfig u rfl
      rw [hhead] at hpushed
      refine ⟨hstill.head.trans hhead, ?_⟩
      rcases hpushed with hsame | hmoved
      · rw [hsame]
        exact hdest
      · exact .inr hmoved
  obtain ⟨hhead, hdest⟩ := hrule w ⟨rfl, .inl hw⟩
  unfold AtHead
  rw [hhead]
  exact hdest

theorem executeMultiCommitAndPush_atHead (h : HasHistory host view repository) (plans : List CommitPlan)
    (expectedDiffHash : String) (settings : Settings) :
    Action.Triple (fun w => view.dest w.world = d) (executeMultiCommitAndPush host repository plans expectedDiffHash settings)
      fun _ w => AtHead view d w.world := by
  have hkept : KeptBy host.offline (fun w => view.dest w = d) fun _ => True := h.dest_kept
  -- what fails before the push left the destination
  have hfirst : ∀ {α β : Type} {x : Action (Traced σ) PublishError α} {f : α → Action (Traced σ) PublishError β},
      Action.Keeps (Below fun w => view.dest w = d) x →
      (∀ a, Action.Triple (fun w => view.dest w.world = d) (f a) fun _ w => AtHead view d w.world) →
      Action.Triple (fun w => view.dest w.world = d) (x >>= f) fun _ w => AtHead view d w.world :=
    fun hx hf => Action.Triple.bind hx hf fun _ _ hw => .inl hw
  have hthrow : ∀ error : PublishError, Action.Triple (fun w : Traced σ => view.dest w.world = d)
      (Action.throw error : Action (Traced σ) PublishError Published) fun _ w => AtHead view d w.world :=
    fun _ => Action.Triple.throw fun _ hw => .inl hw
  unfold executeMultiCommitAndPush
  refine hfirst (note_keeps _) fun _ => ?_
  apply Action.Triple.ite
  · exact fun _ => hthrow _
  intro _
  cases firstDuplicate [] (plans.flatMap (·.files)) with
  | some file => exact hthrow _
  | none =>
    refine hfirst (hkept.guardDiffHash repository expectedDiffHash) fun _ => ?_
    refine hfirst (KeptBy.unwrapped (hkept.shell repository "git rev-parse HEAD" (.inl rfl))) fun head => ?_
    refine hfirst (KeptBy.unwrapped (hkept.reset repository)) fun _ => ?_
    have hloop : Action.Keeps (Below fun w => view.dest w = d)
        (commitPlans host.offline repository plans (trimString head) 0 [] plans) :=
      hkept.commitPlans True.intro plans (trimString head) plans 0 []
    rw [commitPlans_offline] at hloop
    refine hfirst hloop fun shas => ?_
    unfold pushCommits
    refine Action.Triple.bind (Q := fun _ w => AtHead view d w.world) ?_ ?_ fun _ _ hw => hw
    · refine Action.Triple.attempt (Q := fun _ w => AtHead view d w.world)
        (fun w hw => executePush_atHead h settings.autoPush w.world hw) (fun _ _ hw => hw) fun _ => ?_
      exact Action.Triple.throw fun _ hw => hw
    · intro _ w hw
      exact hw

/-- The result is published: its messages are valid. -/
def Publishable : CommitJobResult → Prop
  | .success _ plans => collectCommitMessageValidationErrors plans = []
  | .error _ _ => False

/-- A result moves the destination to HEAD, when it is published, and nowhere else. -/
theorem attemptResult_atHead (h : HasHistory host view repository) (settings : Settings) (systemPrompt repoId : String)
    {repoState : RepoState} (hrepo : repoState.repository = repository) (hoperation : repoState.operation ≠ some .pushOnly)
    (result : CommitJobResult) :
    Action.Triple (fun w => view.dest w.world = d) (attemptResult host settings systemPrompt repoId repoState result)
      fun _ w => view.dest w.world = d ∨ (Publishable result ∧ view.dest w.world = some (view.head w.world)) := by
  have hkept : KeptBy host.offline (fun w => view.dest w = d) fun _ => True := h.dest_kept
  unfold attemptResult
  rw [if_neg hoperation]
  cases result with
  | error id error => exact Action.Triple.pure fun _ hw => .inl hw
  | success id plans =>
    have hvalidated : Action.Triple (fun w => view.dest w.world = d)
        (lifted (handleValidationRetry host repoId settings systemPrompt repoState plans) :
          Action (Traced σ) String (Option Attempt))
        fun r w => view.dest w.world = d ∧ (r = .ok none → collectCommitMessageValidationErrors plans = []) := by
      intro w hw
      refine ⟨lifted_keeps (hkept.handleValidationRetry repoId settings systemPrompt repoState plans) w hw, fun hnone => ?_⟩
      by_contra herrors
      exact handleValidationRetry_some herrors w.world none hnone rfl
    refine Action.Triple.bind hvalidated (fun validated => ?_) fun _ _ hw => .inl hw.1
    cases validated with
    | some attempt => exact Action.Triple.pure fun _ hw => .inl hw.1
    | none =>
      refine (Action.Triple.given fun herrors => ?_).conseq
        (fun w hw => (⟨hw.1, hw.2 rfl⟩ : view.dest w.world = d ∧ collectCommitMessageValidationErrors plans = [])) fun _ _ hw => hw
      have hpublishes : Publishable (.success id plans) := herrors
      unfold publishPlans
      simp only
      apply Action.Triple.ite
      · intro _
        exact Action.Triple.throw fun _ hw => .inl hw
      intro _
      refine Action.Triple.bind_outcome (executeMultiCommitAndPush_atHead (hrepo ▸ h) plans _ settings) fun r => ?_
      cases r with
      | ok published => exact Action.Triple.pure fun _ hw => hw.imp_right fun hmoved => ⟨hpublishes, hmoved⟩
      | error err =>
        intro w hw
        have hafter := h.atHead_kept.handlePublishError repoState plans err w hw
        exact hafter.imp_right fun hmoved => ⟨hpublishes, hmoved⟩

/-- What a published result commits was staged when the publication began, with the hash on record. -/
theorem attemptResult_staged {named : List String → String → Bool} (hhistory : HasHistory host view repository)
    (hcontent : HasContent host view repository named) (settings : Settings) (systemPrompt repoId : String) {repoState : RepoState}
    (hrepo : repoState.repository = repository) (hoperation : repoState.operation ≠ some .pushOnly) {result : CommitJobResult}
    (hpublishes : Publishable result) {expectedDiffHash : String} (hrecorded : repoState.diffHash = some expectedDiffHash)
    (hexpected : expectedDiffHash ≠ EMPTY_DIFF_HASH) {w₀ : σ} (hsteady : Steady view named result.plans w₀) :
    Action.Triple (fun w => w.world = w₀) (attemptResult host settings systemPrompt repoId repoState result)
      fun _ w => Compared host view expectedDiffHash w₀ w.world := by
  unfold attemptResult
  rw [if_neg hoperation]
  cases result with
  | error id error => cases hpublishes
  | success id plans =>
    have hvalid : handleValidationRetry host repoId settings systemPrompt repoState plans = pure none := by
      unfold handleValidationRetry
      simp only
      rw [if_pos (List.isEmpty_iff.mpr hpublishes)]
    dsimp only
    rw [hvalid]
    show Action.Triple _ (publishPlans host settings repoId repoState plans) _
    unfold publishPlans
    simp only
    apply Action.Triple.ite
    · intro _
      exact Action.Triple.throw fun w hw => hw ▸ .unmade rfl
    intro _
    rw [hrecorded, Option.getD_some, hrepo]
    refine Action.Triple.bind_outcome (executeMultiCommitAndPush_staged hhistory hcontent hexpected hsteady settings) fun r => ?_
    cases r with
    | ok published => exact Action.Triple.pure fun _ hw => hw
    | error err => exact fun w hw => hw.same ((hhistory.created_kept _).handlePublishError repoState plans err w rfl)

end Host

/-! ## The commits that were vouched for -/

section Runs

variable {σ : Type} (host : Host σ) (settings : Settings) (systemPrompt : String) (view : HistoryView σ) (repo : RepositoryInfo)
  (named : List String → String → Bool)

/-- The hash on record is of a diff scanned for the repository, and of something staged. -/
def RecordsScanned (trace : List Event) (repoState : RepoState) : Prop :=
  ∃ diff, Event.scanned repo.path diff ∈ trace ∧ repoState.diffHash = some (host.sha256 diff) ∧ host.sha256 diff ≠ EMPTY_DIFF_HASH

/-- A run, with the commits vouched for so far and where its publications have moved the
    destination from and to. -/
structure Book (σ : Type) where
  run : RunState σ
  vouched : String → Prop
  moved : List (Option String × Option String)

/-- The move creates the commit of what is staged, and the staged diff has the hash of a
    scanned one. -/
def CreatesScanned (s : RunState σ) (move : Move σ) (t : RunState σ) (c : String) : Prop :=
  ∃ result diff, move = .handle result ∧ result.id = repo.id ∧ Event.scanned repo.path diff ∈ s.world.trace ∧
    host.sha256 (view.stagedDiff s.world.world) = host.sha256 diff ∧
    c ∈ (view.created t.world.world).drop (view.created s.world.world).length ∧ StagedIn view s.world.world c

/-- The commit's own patch was scanned. -/
def PatchScanned (t : RunState σ) (c : String) : Prop := Event.scanned repo.path (view.patch c) ∈ t.world.trace

def destinationMoves (s : RunState σ) (move : Move σ) (t : RunState σ) : List (Option String × Option String) :=
  match move with
  | .handle result =>
    if result.id = repo.id ∧ view.dest t.world.world ≠ view.dest s.world.world then
      [(view.dest s.world.world, view.dest t.world.world)]
    else []
  | _ => []

def Book.after (b : Book σ) (move : Move σ) (t : RunState σ) : Book σ where
  run := t
  vouched c := b.vouched c ∨ CreatesScanned host view repo b.run move t c ∨ PatchScanned view repo t c
  moved := b.moved ++ destinationMoves view repo b.run move t

/-- The runs that begin with phase 1 on `discovered`, with their books. -/
def bookkeeping (discovered : List RepositoryInfo) : Machine (Book σ) (Move σ) where
  init b := ∃ world repos jobs w,
    (runDiscoveryAndValidationPhase host settings systemPrompt discovered []).run ⟨world, []⟩ = (.ok (repos, jobs), w) ∧
      b = ⟨.phaseStart w ⟨repos, jobs.map (·.id)⟩, PatchScanned view repo (.phaseStart w ⟨repos, jobs.map (·.id)⟩), []⟩
  step b move b' := (∀ found, move ≠ .discover found) ∧ RunStep host settings systemPrompt b.run move b'.run ∧
    b' = b.after host view repo move b'.run

/-- What is published was scanned and stays as it is staged, and goes on top of what is at
    the destination or was vouched for. -/
def PublishesScanned (b : Book σ) (move : Move σ) : Prop :=
  ∀ result repoState, move = .handle result → result.id = repo.id → b.run.batch.repos.get repo.id = some repoState →
    Publishable result → RecordsScanned host repo b.run.world.trace repoState ∧
      Steady view named result.plans b.run.world.world ∧ ∀ c, view.reaches (view.head b.run.world.world) c →
        (∃ baseline, view.dest b.run.world.world = some baseline ∧ view.reaches baseline c) ∨ b.vouched c

/-- Every commit between the two ends of a move was vouched for. -/
def MovesVouched (b : Book σ) : Prop :=
  ∀ baseline source, (baseline, some source) ∈ b.moved → ∀ c, view.reaches source c →
    (∃ old, baseline = some old ∧ view.reaches old c) ∨ b.vouched c

end Runs

section Step

variable {σ : Type} {host : Host σ} {settings : Settings} {systemPrompt : String} {view : HistoryView σ} {repo : RepositoryInfo}
  {named : List String → String → Bool} {discovered : List RepositoryInfo}

theorem MovesVouched.after {b : Book σ} (h : MovesVouched view b) {move : Move σ} {t : RunState σ}
    (hmoves : ∀ baseline source, (baseline, some source) ∈ destinationMoves view repo b.run move t → ∀ c, view.reaches source c →
      (∃ old, baseline = some old ∧ view.reaches old c) ∨ b.vouched c ∨ CreatesScanned host view repo b.run move t c) :
    MovesVouched view (b.after host view repo move t) := by
  intro baseline source hmem c hc
  rcases List.mem_append.mp hmem with hmem | hmem
  · exact (h baseline source hmem c hc).imp_right .inl
  · rcases hmoves baseline source hmem c hc with hold | hvouched | hcreated
    · exact .inl hold
    · exact .inr (.inl hvouched)
    · exact .inr (.inr (.inl hcreated))

/-- A result of the repository: what its publication adds was created with it, or was
    vouched for. -/
theorem handle_vouched (hhost : HasHistory host view repo.path) (hcontent : HasContent host view repo.path named) {b : Book σ}
    (hplaced : PlacedRun repo b.run) {result : CommitJobResult} (hcond : PublishesScanned host view repo named b (.handle result)) {t : RunState σ}
    {repoState : RepoState} (hget : b.run.batch.repos.get result.id = some repoState) {r : Except String Attempt}
    {world : Traced σ} (hworld : t.world = world)
    (hrun : (attemptResult host settings systemPrompt result.id repoState result).run b.run.world = (r, world))
    {baseline : Option String} {source c : String}
    (hmem : (baseline, some source) ∈ destinationMoves view repo b.run (.handle result) t) (hc : view.reaches source c) :
    (∃ old, baseline = some old ∧ view.reaches old c) ∨ b.vouched c ∨
      CreatesScanned host view repo b.run (.handle result) t c := by
  subst hworld
  simp only [destinationMoves] at hmem
  split at hmem
  case isFalse => cases hmem
  rename_i hmoved
  obtain ⟨hid, hmoved⟩ := hmoved
  obtain ⟨rfl, hsource⟩ := Prod.mk.inj (List.mem_singleton.mp hmem)
  have hstate := hplaced.batch _ _ hget
  have hrepo := hstate.path hid
  have hdest := attemptResult_atHead hhost settings systemPrompt result.id hrepo (hstate.operation hid) result b.run.world rfl
  have hkeeps : Action.Keeps (Below (view.Grown (view.head b.run.world.world) (view.created b.run.world.world)))
      (attemptResult host settings systemPrompt result.id repoState result) :=
    (hhost.grown_kept _ _).attemptResult settings systemPrompt result.id True.intro result
  have hgrown := hkeeps b.run.world (HistoryView.grown_start b.run.world.world)
  rw [hrun] at hdest hgrown
  rcases hdest with hsame | ⟨hpublishes, hhead⟩
  · exact absurd hsame hmoved
  obtain ⟨⟨diff, hscanned, hrecorded, hexpected⟩, hsteady, hbefore⟩ := hcond result repoState rfl hid (hid ▸ hget) hpublishes
  have hcompared := attemptResult_staged hhost hcontent settings systemPrompt result.id hrepo (hstate.operation hid) hpublishes
    hrecorded hexpected hsteady b.run.world rfl
  rw [hrun] at hcompared
  obtain ⟨new, hnew, hhistory⟩ := hgrown
  have hc : view.reaches (view.head t.world.world) c := by
    have hends : some source = some (view.head t.world.world) := hsource.trans hhead
    cases hends
    exact hc
  rcases hhistory c hc with hold | hcreated
  · rcases hbefore c hold with hpublished | hvouched
    · exact .inl hpublished
    · exact .inr (.inl hvouched)
  · obtain ⟨made, hmade, hstaged⟩ := hcompared.made
    obtain rfl : new = made := List.append_cancel_left (hnew.symm.trans hmade)
    have hmoved : view.created t.world.world ≠ view.created b.run.world.world := by
      intro hsame
      rw [hsame] at hnew
      rw [List.self_eq_append_right.mp hnew] at hcreated
      cases hcreated
    refine .inr (.inr ⟨result, diff, rfl, hid, hscanned, hcompared.hash hmoved, ?_, hstaged c hcreated⟩)
    rw [hnew, List.drop_left]
    exact hcreated

theorem movesVouched_step (hhost : HasHistory host view repo.path) (hcontent : HasContent host view repo.path named) {b : Book σ}
    (hplaced : PlacedRun repo b.run) (h : MovesVouched view b) {move : Move σ} (hcond : PublishesScanned host view repo named b move)
    {t : RunState σ}
    (hstep : RunStep host settings systemPrompt b.run move t) : MovesVouched view (b.after host view repo move t) := by
  refine h.after fun baseline source hmem c hc => ?_
  cases hstep with
  | @handle result repoState attempt world hidle hid hget hrun =>
    have hworld : (b.run.attempted world result.id attempt).world = world := by
      cases attempt with
      | settled state job => rfl
      | retry request => rfl
    exact handle_vouched hhost hcontent hplaced hcond hget hworld hrun hmem hc
  | handleThrow hidle hid hget hrun => exact handle_vouched hhost hcontent hplaced hcond hget rfl hrun hmem hc
  | handleUnknown hidle hid hget =>
    simp only [destinationMoves] at hmem
    split at hmem
    case isFalse => cases hmem
    rename_i hmoved
    exact absurd rfl hmoved.2
  | edit world => cases hmem
  | discover hfirst hrun => cases hmem
  | discoverThrow hfirst hrun => cases hmem
  | restage hretry hrestages hrun => cases hmem
  | restageThrow hretry hrestages hrun => cases hmem
  | queue hretry hready hrun => cases hmem
  | queueThrow hretry hready hrun => cases hmem
  | delegate hidle hdone => cases hmem

/-- In every run of the phases in which what is published was scanned, stays as it is staged,
    and goes on top of what is at the destination or was vouched for, every commit that a
    publication adds to the destination was created from a scanned diff, with the content
    staged then, or had its own patch scanned. -/
theorem published_scanned (hhost : HasHistory host view repo.path) (hcontent : HasContent host view repo.path named)
    (hdiscovered : DiscoveredWith repo repo discovered)
    {moves : List (Move σ)} {b : Book σ}
    (h : Run ((bookkeeping host settings systemPrompt view repo discovered).guarded (PublishesScanned host view repo named)) moves b) :
    ∀ baseline source, (baseline, some source) ∈ b.moved → ∀ c, view.reaches source c →
      (∃ old, baseline = some old ∧ view.reaches old c) ∨ b.vouched c := by
  have hinv : PlacedRun repo b.run ∧ MovesVouched view b := by
    refine Run.invariant (I := fun b => PlacedRun repo b.run ∧ MovesVouched view b) ?_ ?_ h
    · intro b hb
      obtain ⟨world, repos, jobs, w, hphase, rfl⟩ := hb
      exact ⟨placedRun_start hdiscovered hphase, fun baseline source hmem => by cases hmem⟩
    · intro b move b' hb hstep
      obtain ⟨hcond, hdiscover, hstep, hafter⟩ := hstep
      rw [hafter]
      exact ⟨placedRun_step hb.1 hdiscover hstep, movesVouched_step hhost hcontent hb.1 hb.2 hcond hstep⟩
  exact hinv.2

end Step

/-! ## A branch with a remote -/

/-- One branch: its commits are counted, and how many of them the remote has. One file, staged
    and in the working tree with the content of a commit or of the next. -/
structure Pier where
  head : Nat
  remote : Nat
  index : Nat
  file : Nat
  deriving DecidableEq, Repr

def pierTree (n : Nat) (p : String) : Option String := if p = "app.ts" then some (commitName n) else none

def pierView : HistoryView Pier where
  head w := commitName w.head
  created w := (List.range w.head).map fun n => commitName (n + 1)
  dest w := some (commitName w.remote)
  reaches a b := ∃ i j, a = commitName i ∧ b = commitName j ∧ j ≤ i
  patch c := "patch of " ++ c
  tree c p := if p = "app.ts" then some c else none
  changes _ p := p = "app.ts"
  index w := pierTree w.index
  stagedDiff w := if w.index = w.head then "" else "+app"
  worktree w p content := content = pierTree w.file p
  alone _ := True

def pierHost : Host Pier where
  sha256 text := text
  localeCompare _ _ := 0
  execSync _ command := fun w =>
    if command = "git diff --cached" then (.ok (if w.index = w.head then "" else "+app"), w)
    else if command = "git add -A" then (.ok "", { w with index := w.file })
    else if command = "git reset HEAD" then (.ok "", { w with index := w.head })
    else if command = "git rev-parse HEAD" then (.ok (commitName w.head), w)
    else if command = "git status --porcelain" then (.ok " M app.ts", w)
    else if command = "git symbolic-ref --quiet --short HEAD" then (.ok "main", w)
    else (.ok "", w)
  execFileGit _ args _ := fun w =>
    if args.headD "" = "commit" then
      if w.index = w.head + 1 then (.ok "", { w with head := w.head + 1 }) else (.error (plainError "nothing to commit"), w)
    else if args.headD "" = "push" then (.ok "", { w with remote := w.head })
    else match args with
      | ["rev-parse", "HEAD"] => (.ok (commitName w.head), w)
      | "--literal-pathspecs" :: "add" :: "--" :: files => (.ok "", if files.contains "app.ts" then { w with index := w.file } else w)
      | "rev-parse" :: _ => (.error (plainError "no upstream"), w)
      | ["remote"] => (.ok "origin", w)
      | "remote" :: _ => (.ok "https://host/repository", w)
      | "symbolic-ref" :: _ => (.ok "main", w)
      | ["config", "--get", _] => (.error (plainError "no such key"), w)
      | "ls-remote" :: _ => (.ok (commitName w.remote), w)
      | "for-each-ref" :: _ => (.ok "refs/remotes/origin/main", w)
      | _ => (.ok "", w)
  writeMessage i _ := pure ("plan-" ++ toString i)
  pathExists _ _ := pure true
  randomUUID := pure "endpoint"
  runTestCascade _ := pure ()

theorem commitName_inj {i j : Nat} (h : commitName i = commitName j) : i = j := by
  have hlength := congrArg (fun name : String => name.toList.length) h
  simp only [commitName, String.toList_ofList, List.length_append, List.length_cons, List.length_replicate] at hlength
  omega

theorem pierView_reaches {i j : Nat} : pierView.reaches (commitName i) (commitName j) ↔ j ≤ i := by
  constructor
  · intro ⟨i', j', hi, hj, hle⟩
    rw [commitName_inj hi, commitName_inj hj]
    exact hle
  · exact fun hle => ⟨i, j, rfl, rfl, hle⟩

theorem pierHost_hasHistory : HasHistory pierHost pierView "/r" where
  shell := by
    intro cwd command w _
    simp only [pierHost, Action.run]
    split_ifs <;> exact ⟨⟨rfl, rfl⟩, rfl⟩
  git := by
    intro cwd args processConfig w hcommit hpush
    simp only [pierHost, Action.run, if_neg hcommit, if_neg hpush]
    split
    case h_2 =>
      split <;> exact ⟨⟨rfl, rfl⟩, rfl⟩
    all_goals exact ⟨⟨rfl, rfl⟩, rfl⟩
  commit := by
    intro cwd args processConfig w hcommit
    simp only [pierHost, Action.run, if_pos hcommit]
    split
    case isFalse => exact ⟨rfl, .inl ⟨rfl, rfl⟩⟩
    refine ⟨rfl, .inr ⟨?_, fun c hc => ?_⟩⟩
    · simp [pierView, List.range_succ]
    · obtain ⟨i, j, hi, rfl, hle⟩ := hc
      have hi : w.head + 1 = i := commitName_inj hi
      by_cases hnew : j = w.head + 1
      · exact .inl (by rw [hnew]; rfl)
      · exact .inr (pierView_reaches.mpr (by omega))
  push := by
    intro cwd args processConfig w hpush
    have hcommit : args.headD "" ≠ "commit" := by
      rw [hpush]
      decide
    simp only [pierHost, Action.run, if_neg hcommit, if_pos hpush]
    exact ⟨rfl, rfl⟩
  pushHead := fun cwd lease remote ref processConfig w => .inr rfl
  readHead := by
    intro w out w' hrun
    have hout : out = commitName w.head := by
      cases hrun
      rfl
    rw [hout]
    exact trimString_commitName _
  writeMessage := fun _ _ _ => ⟨⟨rfl, rfl⟩, rfl⟩
  pathExists := fun _ _ _ => ⟨⟨rfl, rfl⟩, rfl⟩
  randomUUID := fun _ => ⟨⟨rfl, rfl⟩, rfl⟩
  runTestCascade := fun _ _ => ⟨⟨rfl, rfl⟩, rfl⟩

theorem pierHost_hasContent : HasContent pierHost pierView "/r" shelfNamed where
  diff := by
    intro w out w' hrun
    cases hrun
    rfl
  read := by
    rintro command w (rfl | rfl) -
    · exact ⟨⟨True.intro, fun p content h => h⟩, rfl⟩
    · exact ⟨⟨True.intro, fun p content h => h⟩, rfl⟩
  reset := fun w _ => ⟨⟨True.intro, fun p content h => h⟩, fun p => .inr rfl, fun _ => rfl⟩
  add := by
    intro files w _
    have hrun : ((pierHost.execFileGit "/r" (["--literal-pathspecs", "add", "--"] ++ files) []).run w).2 =
        if files.contains "app.ts" then { w with index := w.file } else w := rfl
    rw [hrun]
    split
    · rename_i hnamed
      refine ⟨⟨True.intro, fun p content h => h⟩, fun p => ?_⟩
      by_cases hp : p = "app.ts"
      · exact .inr ⟨hp ▸ hnamed, rfl⟩
      · exact .inl (by simp only [pierView, pierTree, if_neg hp])
    · exact ⟨⟨True.intro, fun p content h => h⟩, fun p => .inl rfl⟩
  writeMessage := fun _ _ _ _ => ⟨⟨True.intro, fun p content h => h⟩, rfl⟩
  commit := by
    intro message w _
    have hrun : ((pierHost.execFileGit "/r" ["commit", "--file", message, "--no-verify"] []).run w).2 =
        if w.index = w.head + 1 then { w with head := w.head + 1 } else w := by
      show (if w.index = w.head + 1 then _ else _ : Except ExecError String × Pier).2 = _
      split <;> rfl
    rw [hrun]
    split
    · rename_i hstaged
      refine ⟨⟨True.intro, fun p content h => h⟩, rfl, fun _ => ⟨?_, fun p => ?_⟩⟩
      · funext p
        simp only [pierView, pierTree, hstaged]
      · simp only [pierView, pierTree, hstaged]
        by_cases hp : p = "app.ts"
        · simp only [if_pos hp, iff_true_left hp]
          exact fun heq => absurd (commitName_inj (Option.some.inj heq)) (by omega)
        · simp only [if_neg hp, ne_eq, not_true, iff_false]
          exact hp
    · exact ⟨⟨True.intro, fun p content h => h⟩, rfl, fun h => absurd rfl h⟩

/-- Phase 1 on the one changed file, `ahead` commits of HEAD not yet at the remote. -/
def pierPhase (ahead : Nat) : Except String (Repos × List DelegatedJob) × Traced Pier :=
  (runDiscoveryAndValidationPhase pierHost deskSettings "" [shelfRepository] []).run ⟨⟨ahead, 0, ahead, ahead + 1⟩, []⟩

def pierMove : Move Pier := .handle (.success "r" [deskPlan "app.ts"])

def pierStart (repos : Repos) (jobs : List DelegatedJob) (w : Traced Pier) : Book Pier :=
  ⟨.phaseStart w ⟨repos, jobs.map (·.id)⟩, PatchScanned pierView shelfRepository (.phaseStart w ⟨repos, jobs.map (·.id)⟩), []⟩

/-- The file is scanned and committed, and HEAD is pushed. -/
def pierPublishes (ahead : Nat) : Bool :=
  match pierPhase ahead with
  | (.ok (repos, jobs), w) =>
    w.world == ⟨ahead, 0, ahead + 1, ahead + 1⟩ && (w.trace == [.scanned "/r" "+app"] &&
      ((repos.get "r").any fun repoState => repoState.diffHash == some "+app") &&
      (perform pierHost deskSettings "" (.phaseStart w ⟨repos, jobs.map (·.id)⟩) pierMove).any fun t =>
        t.world.world == ⟨ahead + 1, ahead + 1, ahead + 1, ahead + 1⟩ && !t.world.trace.contains (.scanned "/r" (pierView.patch (commitName 1))))
  | (.error _, _) => false

structure PierRun (ahead : Nat) (repos : Repos) (jobs : List DelegatedJob) (w : Traced Pier) (t : RunState Pier)
    (repoState : RepoState) : Prop where
  phase : pierPhase ahead = (.ok (repos, jobs), w)
  world : w.world = ⟨ahead, 0, ahead + 1, ahead + 1⟩
  trace : w.trace = [.scanned "/r" "+app"]
  get : repos.get "r" = some repoState
  diffHash : repoState.diffHash = some "+app"
  step : RunStep pierHost deskSettings "" (.phaseStart w ⟨repos, jobs.map (·.id)⟩) pierMove t
  published : t.world.world = ⟨ahead + 1, ahead + 1, ahead + 1, ahead + 1⟩
  unscanned : Event.scanned "/r" (pierView.patch (commitName 1)) ∉ t.world.trace

theorem pierPublishes_run {ahead : Nat} (h : pierPublishes ahead = true) :
    ∃ repos jobs w t repoState, PierRun ahead repos jobs w t repoState := by
  unfold pierPublishes at h
  cases hphase : pierPhase ahead with
  | mk r w =>
    rw [hphase] at h
    cases r with
    | error message => cases h
    | ok answer =>
      obtain ⟨repos, jobs⟩ := answer
      simp only [Bool.and_eq_true, beq_iff_eq] at h
      obtain ⟨hworld, ⟨htrace, hget⟩, hperform⟩ := h
      obtain ⟨repoState, hget, hhash⟩ := exists_of_any hget
      obtain ⟨t, ht, hend⟩ := exists_of_any hperform
      rw [Bool.and_eq_true, beq_iff_eq, Bool.not_eq_true', ← Bool.not_eq_true, List.contains_iff_mem] at hend
      exact ⟨repos, jobs, w, t, repoState, hphase, hworld, htrace, hget, beq_iff_eq.mp hhash,
        perform_step pierHost deskSettings "" ht, hend.1, hend.2⟩

section Pier

variable {ahead : Nat} {repos : Repos} {jobs : List DelegatedJob} {w : Traced Pier} {t : RunState Pier} {repoState : RepoState}

theorem PierRun.run (h : PierRun ahead repos jobs w t repoState) (cond : Book Pier → Move Pier → Prop)
    (hcond : cond (pierStart repos jobs w) pierMove) :
    Run ((bookkeeping pierHost deskSettings "" pierView shelfRepository [shelfRepository]).guarded cond) [pierMove]
      ((pierStart repos jobs w).after pierHost pierView shelfRepository pierMove t) := by
  have hstart : (bookkeeping pierHost deskSettings "" pierView shelfRepository [shelfRepository]).init (pierStart repos jobs w) :=
    ⟨⟨ahead, 0, ahead, ahead + 1⟩, repos, jobs, w, h.phase, rfl⟩
  exact ⟨_, hstart, Steps.single ⟨hcond, (fun found hmove => by cases hmove), h.step, rfl⟩⟩

/-- The destination moved from the first commit to HEAD. -/
theorem PierRun.moved (h : PierRun ahead repos jobs w t repoState) :
    (some (commitName 0), some (commitName (ahead + 1))) ∈
      ((pierStart repos jobs w).after pierHost pierView shelfRepository pierMove t).moved := by
  have hbefore : pierView.dest w.world = some (commitName 0) := by
    rw [h.world]
    rfl
  have hafter : pierView.dest t.world.world = some (commitName (ahead + 1)) := by
    rw [h.published]
    rfl
  have hmoves : destinationMoves pierView shelfRepository (.phaseStart w ⟨repos, jobs.map (·.id)⟩) pierMove t =
      [(some (commitName 0), some (commitName (ahead + 1)))] := by
    have hne : some (commitName (ahead + 1)) ≠ some (commitName 0) := by
      intro heq
      have hsame := commitName_inj (Option.some.inj heq)
      omega
    simp only [destinationMoves, pierMove, RunState.phaseStart, hbefore, hafter]
    rw [if_pos ⟨rfl, hne⟩]
  refine List.mem_append_right _ ?_
  rw [show (pierStart repos jobs w).run = .phaseStart w ⟨repos, jobs.map (·.id)⟩ from rfl, hmoves]
  exact List.mem_cons_self

end Pier

/-- A commit that the remote lacks is there before the run. The push takes it along: it was
    not created in the run, and its patch was never scanned. -/
theorem unscanned_commit_published : HasHistory pierHost pierView shelfRepository.path ∧
    HasContent pierHost pierView shelfRepository.path shelfNamed ∧ ∃ moves b, Run (bookkeeping pierHost deskSettings "" pierView shelfRepository [shelfRepository]) moves b ∧
      ∃ baseline source c, (baseline, some source) ∈ b.moved ∧ pierView.reaches source c ∧
        ¬ ((∃ old, baseline = some old ∧ pierView.reaches old c) ∨ b.vouched c) := by
  refine ⟨pierHost_hasHistory, pierHost_hasContent, ?_⟩
  have hpublishes : pierPublishes 1 = true := by
    decide +kernel
  obtain ⟨repos, jobs, w, t, repoState, h⟩ := pierPublishes_run hpublishes
  refine ⟨_, _, (h.run (fun _ _ => True) True.intro).of_guarded, some (commitName 0), commitName 2, commitName 1, h.moved,
    pierView_reaches.mpr (by omega), ?_⟩
  intro hvouched
  rcases hvouched with ⟨old, hold, hreaches⟩ | hstart | ⟨_, _, -, -, -, -, hcreated, -⟩ | hpatch
  · cases hold
    have hle := pierView_reaches.mp hreaches
    omega
  · have hscanned : Event.scanned "/r" ("patch of " ++ commitName 1) ∈ w.trace := hstart
    rw [h.trace] at hscanned
    revert hscanned
    decide
  · have hcreated : commitName 1 ∈ (pierView.created t.world.world).drop (pierView.created w.world).length := hcreated
    rw [h.published, h.world] at hcreated
    revert hcreated
    decide
  · exact h.unscanned hpatch

/-- HEAD is at the remote when the run begins. -/
theorem published_scanned_pier : ∃ b : Book Pier, (some (commitName 0), some (commitName 1)) ∈ b.moved ∧
    ∀ baseline source, (baseline, some source) ∈ b.moved → ∀ c, pierView.reaches source c →
      (∃ old, baseline = some old ∧ pierView.reaches old c) ∨ b.vouched c := by
  have hpublishes : pierPublishes 0 = true := by
    decide +kernel
  obtain ⟨repos, jobs, w, t, repoState, h⟩ := pierPublishes_run hpublishes
  have hdiscovered : DiscoveredWith shelfRepository shelfRepository [shelfRepository] := ⟨by decide, by decide⟩
  have hcond : PublishesScanned pierHost pierView shelfRepository shelfNamed (pierStart repos jobs w) pierMove := by
    intro result state hmove _ hget _
    cases hmove
    have hstate : repos.get "r" = some state := hget
    rw [h.get] at hstate
    cases hstate
    have hsteady : Steady pierView shelfNamed [deskPlan "app.ts"] w.world := by
      refine ⟨True.intro, fun p _ => .inl ?_⟩
      rw [h.world]
      exact fun content hcontent => hcontent
    refine ⟨⟨"+app", ?_, h.diffHash, by decide⟩, hsteady, fun c hc => .inl ⟨commitName 0, ?_, ?_⟩⟩
    · show Event.scanned "/r" "+app" ∈ w.trace
      rw [h.trace]
      exact List.mem_cons_self
    · show pierView.dest w.world = some (commitName 0)
      rw [h.world]
      rfl
    · have hc : pierView.reaches (pierView.head w.world) c := hc
      rw [h.world] at hc
      exact hc
  exact ⟨_, h.moved, published_scanned pierHost_hasHistory pierHost_hasContent hdiscovered (h.run _ hcond)⟩

end GitCommitsPush.Publication
