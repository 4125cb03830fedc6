/-
  GitCommitsPush.Publication.SuccessPushed — SUCCESS means pushed, except after a report
  of an empty plan.

  A repository succeeds in three places: after a publication, when the publisher is
  given no plan, and when the text of an LLM failure speaks of something empty. The last
  two push nothing, and are taken only when commits have landed that no push followed.
  Without them every commit on record is pushed (`success_pushed`);
  `unpushed_success` is a run that ends in one.
-/

import GitCommitsPush.Publication.RunInvariant

namespace GitCommitsPush.Publication

open GitCommitsPush.Lib.Effect
open GitCommitsPush.Lib.Runs
open GitCommitsPush.Lib.Trace (Emits)

/-- `executePush` returned after every commit on record had been created. -/
def PushedAfter (trace : List Event) (repoState : RepoState) : Prop :=
  ∃ before after, trace = before ++ .pushed repoState.repository :: after ∧
    Landed repoState.repository before repoState.recorded

/-- The commits on record exist, and a repository that has succeeded has pushed them. -/
def Recorded (trace : List Event) (repoState : RepoState) : Prop :=
  repoState.operation ≠ some .pushOnly →
    Landed repoState.repository trace repoState.recorded ∧ (repoState.status = .SUCCESS → PushedAfter trace repoState)

/-- No result reports an empty plan for a repository with commits on record. -/
def NoEmptyReport {σ : Type} (s : RunState σ) (move : Move σ) : Prop :=
  ∀ result repoState, move = .handle result → s.batch.repos.get result.id = some repoState →
    repoState.operation ≠ some .pushOnly → ¬ EmptyReport repoState result

theorem PushedAfter.mono {trace : List Event} {repoState : RepoState} (h : PushedAfter trace repoState) (more : List Event) :
    PushedAfter (trace ++ more) repoState := by
  obtain ⟨before, after, rfl, hlanded⟩ := h
  exact ⟨before, after ++ more, by rw [List.append_assoc, List.cons_append], hlanded⟩

/-- An attempt that meets the condition keeps the record. -/
theorem recorded_handled {trace events : List Event} {repoId : String} {repoState : RepoState} {result : CommitJobResult}
    {attempt : Attempt} (hrecorded : Recorded trace repoState) (hopen : Open repoState)
    (hcommits : repoState.operation ≠ some .pushOnly) (hreport : ¬ EmptyReport repoState result)
    (h : Handled repoId repoState result attempt events) : Recorded (trace ++ events) attempt.repoState := by
  intro _
  obtain ⟨hlanded, -⟩ := hrecorded hcommits
  have hland : ∀ {front : List Event}, (∀ e ∈ front, e ∈ events) →
      (∀ c ∈ attempt.repoState.recorded, c ∈ repoState.recorded ∨ Event.committed repoState.repository c.sha ∈ front) →
      Landed attempt.repoState.repository (trace ++ front) attempt.repoState.recorded := by
    intro front _ hc c hmem
    rw [h.repository]
    rcases hc c hmem with hold | hnew
    · exact List.mem_append_left _ (hlanded c hold)
    · exact List.mem_append_right _ hnew
  refine ⟨hland (fun _ he => he) h.recorded, fun hsuccess => ?_⟩
  rcases h.success hsuccess with hold | hempty | ⟨front, rfl, hfront⟩
  · exact absurd hold (hopen hcommits)
  · exact absurd hempty hreport
  · refine ⟨trace ++ front, [], ?_, hland (fun _ he => List.mem_append_left _ he) hfront⟩
    rw [h.repository, List.append_assoc]

section Runs

variable {σ : Type} {host : Host σ} {settings : Settings} {systemPrompt : String}

theorem recorded_rule : RunRule host settings systemPrompt NoEmptyReport (fun _ => True) Recorded where
  nil := True.intro
  mono := by
    intro trace more s h hcommits
    obtain ⟨hlanded, hpushed⟩ := h hcommits
    exact ⟨hlanded.mono fun e he => List.mem_append_left _ he, fun hs => (hpushed hs).mono more⟩
  running := by
    intro trace s h hcommits
    exact ⟨(h hcommits).1, fun hs => by cases hs⟩
  validate := by
    intro repo
    refine (validateRepository_emits host settings repo).conseq ?_
    intro r events h trace _
    refine ⟨True.intro, fun answer ha _ => ?_⟩
    obtain ⟨hstatus, hnone, -⟩ := h.2 answer ha
    refine ⟨fun c hc => ?_, fun hs => absurd hs hstatus⟩
    rw [hnone] at hc
    cases hc
  attempt := by
    intro s result repoState hcond hget hopen _ hrecorded r world hrun
    refine ⟨True.intro, fun attempt ha => ?_⟩
    obtain ⟨events, htrace, hevents⟩ := attemptResult_emits host settings systemPrompt result.id repoState result s.world
    have heffect := hevents.2 attempt (by rw [hrun]; exact ha)
    rw [hrun] at htrace
    rw [show world.trace = s.world.trace ++ events from htrace]
    unfold AttemptEffect at heffect
    split at heffect
    · obtain ⟨state, rfl, hstate⟩ := heffect
      exact fun hcommits => absurd hstate hcommits
    · exact recorded_handled hrecorded hopen (by assumption) (hcond result repoState rfl hget (by assumption)) heffect
  finish := by
    intro s id retry _ _ hready hrecorded repoState job hrun
    obtain ⟨hfinished, -⟩ := finishRetry_finished host settings systemPrompt id hready hrun
    have hrepository : repoState.repository = retry.request.repoState.repository := congrArg (·.1) hfinished.books
    have hoperation : repoState.operation = retry.request.repoState.operation := congrArg (·.2.1) hfinished.books
    have hshas : repoState.recorded = retry.request.repoState.recorded :=
      congrArg (fun books => books.2.2.getD []) hfinished.books
    intro hcommits
    obtain ⟨hlanded, hpushed⟩ := hrecorded (hoperation ▸ hcommits)
    unfold PushedAfter
    rw [hrepository, hshas]
    refine ⟨hlanded, fun hs => ?_⟩
    cases job with
    | none => exact absurd (hfinished.failed rfl ▸ hs) (by decide)
    | some queued => exact hpushed ((hfinished.queued queued rfl).2 ▸ hs)

/-- In a run without such a report, a commit-and-push repository that has succeeded has
    pushed every commit on record. -/
theorem success_pushed {moves : List (Move σ)} {s : RunState σ}
    (h : Run ((runMachine host settings systemPrompt).guarded NoEmptyReport) moves s) {id : String} {repoState : RepoState}
    (hget : s.batch.repos.get id = some repoState) (hcommits : repoState.operation ≠ some .pushOnly)
    (hsuccess : repoState.status = .SUCCESS) : PushedAfter s.world.trace repoState :=
  ((recorded_rule.run h).batch id repoState hget hcommits).2 hsuccess

end Runs

/-! ## A small repository -/

/-- A repository with one branch, on which the second plan of a call cannot be committed. -/
structure Desk where
  head : Nat
  staged : String
  remote : String
  deriving DecidableEq, Repr

def Desk.headSha (desk : Desk) : String := "c" ++ toString desk.head

def deskHost : Host Desk where
  sha256 text := "sha256:" ++ text
  localeCompare _ _ := 0
  execSync _ command := fun desk =>
    if command = "git diff --cached" then (.ok desk.staged, desk)
    else if command = "git rev-parse HEAD" then (.ok desk.headSha, desk)
    else (.ok "", desk)
  execFileGit _ args _ := fun desk => match args with
    | ["commit", _, path, _] =>
      if path = "plan-1" then (.error (plainError "cannot commit"), desk) else (.ok "", { desk with head := desk.head + 1 })
    | "--literal-pathspecs" :: "status" :: _ => (.ok " M file", desk)
    | ["rev-parse", "HEAD"] => (.ok desk.headSha, desk)
    | "rev-parse" :: _ => (.error (plainError "no upstream"), desk)
    | ["remote"] => (.ok "origin", desk)
    | "remote" :: _ => (.ok "https://host/repository", desk)
    | "symbolic-ref" :: _ => (.ok "main", desk)
    | ["config", "--get", _] => (.error (plainError "no such key"), desk)
    | "ls-remote" :: _ => (.ok desk.remote, desk)
    | "push" :: _ => (.ok "", { desk with remote := desk.headSha })
    | "for-each-ref" :: _ => (.ok "refs/remotes/origin/main", desk)
    | _ => (.ok "", desk)
  writeMessage i _ := pure ("plan-" ++ toString i)
  pathExists _ _ := pure true
  randomUUID := pure "endpoint"
  runTestCascade _ := pure ()

def deskSettings : Settings where
  provider := "provider"
  model := "model"
  temperature := 0
  autoPush := true
  skipTests := true
  fallbackProvider := none
  fallbackModel := none
  thinking := none
  agent := none
  maxDiffChars := none

def deskRepository : RepositoryInfo := ⟨"r", "/r", .commitAndPush, none⟩

/-- `feat: add file`. -/
def deskPlan (file : String) : CommitPlan := ⟨⟨"feat", none, "add " ++ file, none, false⟩, [file]⟩

/-- What the moves lead to, while they are allowed. -/
def deskRun (allowed : RunState Desk → Move Desk → Bool) (moves : List (Move Desk)) : Option (RunState Desk) :=
  performAll deskHost deskSettings "" allowed (.initial ⟨0, "diff", ""⟩) moves

theorem deskRun_run {allowed : RunState Desk → Move Desk → Bool} {cond : RunState Desk → Move Desk → Prop}
    (hallowed : ∀ s move, allowed s move = true → cond s move) {moves : List (Move Desk)} {t : RunState Desk}
    (h : deskRun allowed moves = some t) : Run ((runMachine deskHost deskSettings "").guarded cond) moves t :=
  ⟨_, ⟨_, rfl⟩, performAll_steps deskHost deskSettings "" hallowed h⟩

theorem exists_of_any {α : Type} {o : Option α} {p : α → Bool} (h : o.any p = true) : ∃ a, o = some a ∧ p a = true := by
  cases o with
  | none => cases h
  | some a => exact ⟨a, rfl, h⟩

/-- One commit lands, the second fails, and the planner's next answer is an empty plan. -/
def emptyReportMoves : List (Move Desk) :=
  [.discover [deskRepository], .handle (.success "r" [deskPlan "a", deskPlan "b"]), .restage, .queue, .delegate,
    .handle (.error "r" "LLM Fatal Error: LLM returned an invalid response: expected a non-empty JSON array.")]

/-- The run ends in success; its commit was never pushed. -/
theorem unpushed_success : ∃ moves s repoState, Run (runMachine deskHost deskSettings "") moves s ∧
    s.batch.repos.get "r" = some repoState ∧ repoState.operation ≠ some .pushOnly ∧ repoState.status = .SUCCESS ∧
    ¬ PushedAfter s.world.trace repoState := by
  have hrun : (deskRun (fun _ _ => true) emptyReportMoves).any (fun t =>
      (t.batch.repos.get "r").any (fun r => r.status == .SUCCESS && r.operation == some .commitAndPush) &&
      t.world.trace == [.scanned "/r" "diff", .executing "/r" "sha256:diff", .committed "/r" "c1"]) = true := by
    decide +kernel
  obtain ⟨t, ht, hend⟩ := exists_of_any hrun
  rw [Bool.and_eq_true] at hend
  obtain ⟨repoState, hget, hstate⟩ := exists_of_any hend.1
  rw [Bool.and_eq_true, beq_iff_eq, beq_iff_eq] at hstate
  have hsteps := (deskRun_run (fun _ _ _ => True.intro) ht).of_guarded
  refine ⟨_, t, repoState, hsteps, hget, by rw [hstate.2]; decide, hstate.1, ?_⟩
  intro hpushed
  obtain ⟨before, after, htrace, -⟩ := hpushed
  have hmem : Event.pushed repoState.repository ∈ t.world.trace := by
    rw [htrace]
    exact List.mem_append_right _ List.mem_cons_self
  rw [beq_iff_eq.mp hend.2] at hmem
  simp at hmem

/-- One plan, committed and pushed. -/
theorem success_pushed_desk : ∃ (s : RunState Desk) (repoState : RepoState), s.batch.repos.get "r" = some repoState ∧ repoState.status = .SUCCESS ∧
    repoState.recorded = [⟨"c1", ["a"]⟩] ∧ PushedAfter s.world.trace repoState := by
  have hrun : (deskRun (fun _ move => match move with | .handle result => !result.reportsEmpty | _ => true)
      [.discover [deskRepository], .handle (.success "r" [deskPlan "a"])]).any (fun t =>
      (t.batch.repos.get "r").any fun r => r.status == .SUCCESS && r.operation == some .commitAndPush &&
        r.recorded == [⟨"c1", ["a"]⟩]) = true := by
    decide +kernel
  obtain ⟨t, ht, hend⟩ := exists_of_any hrun
  obtain ⟨repoState, hget, hstate⟩ := exists_of_any hend
  rw [Bool.and_eq_true, Bool.and_eq_true, beq_iff_eq, beq_iff_eq, beq_iff_eq] at hstate
  refine ⟨t, repoState, hget, hstate.1.1, hstate.2, ?_⟩
  refine success_pushed (deskRun_run ?_ ht) hget (by rw [hstate.1.2]; decide) hstate.1.1
  intro s move hallowed result repoState hmove _ _ hreport
  subst hmove
  simp only [hreport.2] at hallowed
  cases hallowed

end GitCommitsPush.Publication
