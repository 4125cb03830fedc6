/-
  GitCommitsPush.Publication.CompleteRuns — what a run leaves uncommitted of what phase 1
  validated.

  The planner is told to cover every file, and nothing checks that it does: a repository
  whose plans pass over a staged file still ends in success (`incomplete_success`).
  `success_complete` says when success means that every path of the validated diff is
  changed by a commit on record: whenever results are published, each path is changed by a
  commit on record already, or differs from HEAD and is named by one of the plans.
-/

import GitCommitsPush.Publication.StagedCoverage
import GitCommitsPush.Publication.SubmoduleRuns

namespace GitCommitsPush.Publication

open GitCommitsPush.Lib.Effect
open GitCommitsPush.Lib.JsText
open GitCommitsPush.Lib.Runs
open GitCommitsPush.Lib.Trace (lifted lifted_eq_ok)

/-! ## The books after a publication -/

theorem mem_mergeInto_old {c : CommittedSha} {merged : List CommittedSha} (incoming : List CommittedSha) (h : c ∈ merged) :
    c ∈ mergeInto merged incoming := by
  induction incoming generalizing merged with
  | nil => exact h
  | cons committedSha incoming ih =>
    unfold mergeInto
    split
    · exact ih h
    · exact ih (List.mem_append_left _ h)

/-- A commit with the id of each is kept. -/
theorem mem_mergeInto_new {c : CommittedSha} (merged : List CommittedSha) {incoming : List CommittedSha} (h : c ∈ incoming) :
    ∃ kept ∈ mergeInto merged incoming, kept.sha = c.sha := by
  induction incoming generalizing merged with
  | nil => cases h
  | cons committedSha incoming ih =>
    unfold mergeInto
    split
    · rename_i hknown
      rcases List.mem_cons.mp h with rfl | h
      · obtain ⟨kept, hmem, hsha⟩ := List.any_eq_true.mp hknown
        exact ⟨kept, mem_mergeInto_old incoming hmem, beq_iff_eq.mp hsha⟩
      · exact ih merged h
    · rcases List.mem_cons.mp h with rfl | h
      · exact ⟨c, mem_mergeInto_old incoming (List.mem_append_right _ List.mem_cons_self), rfl⟩
      · exact ih _ h

theorem handleLlmJobFailure_recorded (repoState : RepoState) (error : String) :
    (handleLlmJobFailure repoState error).repoState.recorded = repoState.recorded := by
  unfold handleLlmJobFailure
  simp only
  split
  · split <;> rfl
  · split <;> rfl

section Result

variable {σ : Type} {host : Host σ} {view : CheckoutView σ} {repository : String} {named : List String → String → Bool}
  {p : String} {settings : Settings} {systemPrompt repoId : String} {repoState : RepoState}

theorem Changed.merged {before published : List CommittedSha} {w : σ} (h : Changed view before w p ∨ Changed view published w p) :
    Changed view (mergeInto before published) w p := by
  rcases h with ⟨c, hmem, hchanges⟩ | ⟨c, hmem, hchanges⟩
  · exact ⟨c, mem_mergeInto_old published hmem, hchanges⟩
  · obtain ⟨kept, hkept, hsha⟩ := mem_mergeInto_new before hmem
    exact ⟨kept, hkept, hsha ▸ hchanges⟩

/-- A path that is changed on record, or differs from HEAD and is planned, is changed on
    record when the publication succeeds. -/
theorem publishPlans_complete (h : HasCheckout host view repository named) (hrepo : repoState.repository = repository)
    (hopen : repoState.status ≠ .SUCCESS) {plans : List CommitPlan} {attempt : Attempt} {w w' : Traced σ}
    (hcovered : Changed view repoState.recorded w.world p ∨ (view.Differs w.world p ∧ Planned named plans p))
    (hrun : (publishPlans host settings repoId repoState plans).run w = (.ok attempt, w'))
    (hsuccess : attempt.repoState.status = .SUCCESS) : Changed view attempt.repoState.recorded w'.world p := by
  have hkept : Changed view repoState.recorded w.world p → Changed view repoState.recorded w'.world p := by
    intro hchanged
    have hkeeps : ∀ sha, Action.Keeps (Below fun w => view.changes w sha p) (publishPlans host settings repoId repoState plans) :=
      fun sha => (h.lasting sha p).publishPlans settings repoId True.intro plans
    have hafter := Changed.keeps hkeeps repoState.recorded w hchanged
    rw [hrun] at hafter
    exact hafter
  unfold publishPlans at hrun
  simp only at hrun
  split at hrun
  · cases hrun
  rw [Action.run_bind, Action.run_outcome, hrepo] at hrun
  cases hexec : (executeMultiCommitAndPush host repository plans (repoState.diffHash.getD "") settings).run w with
  | mk r w₁ =>
    rw [hexec] at hrun
    cases r with
    | ok published =>
      cases hrun
      obtain ⟨-, -, -, hmerged⟩ := mergePublished_books repoState published plans
      show Changed view (mergePublished repoState published plans).recorded w₁.world p
      rw [hmerged]
      refine Changed.merged ?_
      rcases hcovered with hchanged | ⟨hdiffers, hplanned⟩
      · exact .inl (hkept hchanged)
      · exact .inr (executeMultiCommitAndPush_covers h hdiffers hplanned hexec)
    | error err =>
      -- only an empty list of plans fails into success
      dsimp only at hrun
      obtain ⟨hrecorded, hstatus⟩ := handlePublishError_state repoState plans err w₁ attempt (by rw [hrun])
      have hempty : err.isEmptyPlans = true := (hstatus hsuccess).resolve_left hopen
      obtain ⟨_, -, _, -, -, houtcome⟩ :=
        executeMultiCommitAndPush_emits host repository plans (repoState.diffHash.getD "") settings w
      rw [hexec] at houtcome
      obtain ⟨hnone, hshas⟩ := houtcome.2 hempty
      rw [hrecorded, mergeFailure_nothing hempty hshas]
      rcases hcovered with hchanged | ⟨-, plan, hmem, -⟩
      · exact hkept hchanged
      · rw [hnone] at hmem
        cases hmem

theorem attemptResult_complete (h : HasCheckout host view repository named) (hrepo : repoState.repository = repository)
    (hoperation : repoState.operation ≠ some .pushOnly) (hopen : repoState.status ≠ .SUCCESS) {result : CommitJobResult}
    {attempt : Attempt} {w w' : Traced σ}
    (hcovered : MayPublish repoState result →
      Changed view repoState.recorded w.world p ∨ (view.Differs w.world p ∧ Planned named result.plans p))
    (hrun : (attemptResult host settings systemPrompt repoId repoState result).run w = (.ok attempt, w'))
    (hsuccess : attempt.repoState.status = .SUCCESS) : Changed view attempt.repoState.recorded w'.world p := by
  by_cases hpublish : MayPublish repoState result
  · have hcovered := hcovered hpublish
    unfold attemptResult at hrun
    rw [if_neg hoperation] at hrun
    cases result with
    | error id error =>
      rw [Action.run_pure, Prod.mk.injEq, Except.ok.injEq] at hrun
      obtain ⟨rfl, rfl⟩ := hrun
      rw [handleLlmJobFailure_recorded]
      rcases hcovered with hchanged | ⟨-, plan, hmem, -⟩
      · exact hchanged
      · cases hmem
    | success id plans =>
      have herrors : (collectCommitMessageValidationErrors plans).isEmpty = true := List.isEmpty_iff.mpr hpublish
      have hvalid : handleValidationRetry host repoId settings systemPrompt repoState plans = pure none := by
        unfold handleValidationRetry
        simp only
        rw [if_pos herrors]
      dsimp only at hrun
      rw [hvalid] at hrun
      exact publishPlans_complete h hrepo hopen hcovered hrun hsuccess
  · obtain ⟨-, hstatus⟩ := attemptResult_unpublished hoperation hpublish w attempt (by rw [hrun])
    exact absurd (hstatus hsuccess) hopen

end Result

/-! ## The condition -/

section Runs

variable {σ : Type} (view : CheckoutView σ) (repo : RepositoryInfo) (named : List String → String → Bool)

/-- The path is in the staged diff that phase 1 validated for the repository. -/
def Staged (w : Traced σ) (p : String) : Prop := ∃ diff, Event.scanned repo.path diff ∈ w.trace ∧ view.shows diff p

/-- Results are published when every path of `staged` is changed by a commit on record, or
    differs from HEAD and is planned. Nobody takes back a commit, and phase 1 is over. -/
structure Covering (staged : String → Prop) (s : RunState σ) (move : Move σ) : Prop where
  edit : ∀ world, move = .edit world → ∀ sha p, view.changes s.world.world sha p → view.changes world sha p
  discovered : ∀ discovered, move ≠ .discover discovered
  handle : ∀ result repoState, move = .handle result → result.id = repo.id → s.batch.repos.get repo.id = some repoState →
    MayPublish repoState result → ∀ p, staged p → Changed view repoState.recorded s.world.world p ∨
      (view.Differs s.world.world p ∧ Planned named result.plans p)

/-! ## The invariant -/

/-- A success of the repository is complete. -/
def Complete (staged : String → Prop) (repos : Repos) (w : σ) : Prop :=
  ∀ repoState, repos.get repo.id = some repoState → repoState.status = .SUCCESS → ∀ p, staged p →
    Changed view repoState.recorded w p

/-- Everything the run holds of the repository is of a commit-and-push one at its path. -/
structure PlacedRun (s : RunState σ) : Prop where
  batch : s.batch.repos.Each (Placed repo repo)
  checkpoint : s.checkpoint.repos.Each (Placed repo repo)
  retry : ∀ id retry, s.retry = some (id, retry) → Placed repo repo id retry.request.repoState

structure CompleteRun (staged : String → Prop) (s : RunState σ) : Prop where
  done : Complete view repo staged s.batch.repos s.world.world
  started : Complete view repo staged s.checkpoint.repos s.world.world

end Runs

section Step

variable {σ : Type} {host : Host σ} {settings : Settings} {systemPrompt : String} {view : CheckoutView σ}
  {repo : RepositoryInfo} {named : List String → String → Bool} {staged : String → Prop} {s t : RunState σ}

theorem Complete.later {repos : Repos} {w w' : σ} (h : Complete view repo staged repos w)
    (hlater : ∀ sha p, view.changes w sha p → view.changes w' sha p) : Complete view repo staged repos w' := by
  intro repoState hget hsuccess p hp
  obtain ⟨c, hmem, hchanges⟩ := h repoState hget hsuccess p hp
  exact ⟨c, hmem, hlater c.sha p hchanges⟩

theorem Complete.set {repos : Repos} {w : σ} (h : Complete view repo staged repos w) {id : String} {repoState : RepoState}
    (hstate : id = repo.id → repoState.status = .SUCCESS → ∀ p, staged p → Changed view repoState.recorded w p) :
    Complete view repo staged (repos.set id repoState) w := by
  intro state hget hsuccess p hp
  rw [Repos.get_set] at hget
  split at hget
  · rename_i hid
    cases hget
    exact hstate hid hsuccess p hp
  · exact h state hget hsuccess p hp

theorem PlacedRun.restart (h : PlacedRun repo s) (world : Traced σ) : PlacedRun repo (s.restart world) :=
  ⟨h.checkpoint, h.checkpoint, fun id retry hr => by cases hr⟩

/-- A phase that throws starts again. -/
theorem CompleteRun.restart (h : CompleteRun view repo staged s) {world : Traced σ}
    (hlater : ∀ sha p, view.changes s.world.world sha p → view.changes world.world sha p) :
    CompleteRun view repo staged (s.restart world) where
  done := h.started.later hlater
  started := h.started.later hlater

/-- What keeps the changes of every commit. -/
theorem changes_later {ε α : Type} {x : Action (Traced σ) ε α}
    (hx : ∀ sha p, Action.Keeps (Below fun w => view.changes w sha p) x) {w w' : Traced σ} {r : Except ε α}
    (hrun : x.run w = (r, w')) : ∀ sha p, view.changes w.world sha p → view.changes w'.world sha p := by
  intro sha p hchanges
  have hafter := hx sha p w hchanges
  rw [hrun] at hafter
  exact hafter

/-- After phase 1 a repository stays what it is. -/
theorem placedRun_step (h : PlacedRun repo s) {move : Move σ} (hdiscovered : ∀ discovered, move ≠ .discover discovered)
    (hstep : RunStep host settings systemPrompt s move t) : PlacedRun repo t := by
  cases hstep with
  | edit world => exact ⟨h.batch, h.checkpoint, h.retry⟩
  | discover hfirst hrun => exact absurd rfl (hdiscovered _)
  | discoverThrow hfirst hrun => exact absurd rfl (hdiscovered _)
  | @handle result repoState attempt world hidle hid hget hrun =>
    obtain ⟨hrepository, hoperation, -⟩ := attemptResult_placed hrun
    have hafter := (h.batch _ _ hget).of_same hrepository hoperation
    cases attempt with
    | settled state job => exact ⟨h.batch.set hafter, h.checkpoint, fun id retry hr => by cases hr⟩
    | retry request =>
      refine ⟨h.batch, h.checkpoint, fun id retry hr => ?_⟩
      cases hr
      exact hafter
  | handleThrow hidle hid hget hrun => exact h.restart _
  | handleUnknown hidle hid hget => exact ⟨h.batch, h.checkpoint, h.retry⟩
  | @restage id request found world hretry hrestages hrun =>
    refine ⟨h.batch, h.checkpoint, fun other retry hr => ?_⟩
    have hasked := h.retry id (.asked request) hretry
    cases hr
    exact hasked
  | restageThrow hretry hrestages hrun => exact h.restart _
  | @queue id retry repoState job world hretry hready hrun =>
    obtain ⟨hfinished, -⟩ := finishRetry_finished host settings systemPrompt id hready
      (congrArg (·.1) hrun : ((finishRetry host settings systemPrompt id retry).run s.world.world).1 = .ok (repoState, job))
    have hplaced := (h.retry id retry hretry).of_same (congrArg (·.1) hfinished.books) (congrArg (·.2.1) hfinished.books)
    exact ⟨h.batch.set hplaced, h.checkpoint, fun id retry hr => by cases hr⟩
  | queueThrow hretry hready hrun => exact h.restart _
  | delegate hidle hdone => exact ⟨h.batch, h.batch, fun id retry hr => by cases hr⟩

theorem completeRun_step (hhost : HasCheckout host view repo.path named) (h : CompleteRun view repo staged s)
    (hwaiting : Waiting s) (hplaced : PlacedRun repo s) {move : Move σ} (hcond : Covering view repo named staged s move)
    (hstep : RunStep host settings systemPrompt s move t) : CompleteRun view repo staged t := by
  cases hstep with
  | edit world =>
    have hlater := hcond.edit world rfl
    exact ⟨h.done.later hlater, h.started.later hlater⟩
  | discover hfirst hrun => exact absurd rfl (hcond.discovered _)
  | discoverThrow hfirst hrun => exact absurd rfl (hcond.discovered _)
  | @handle result repoState attempt world hidle hid hget hrun =>
    have hlater := changes_later (fun sha p => (hhost.lasting sha p).attemptResult settings systemPrompt result.id True.intro result)
      hrun
    have hplaced := hplaced.batch _ _ hget
    cases attempt with
    | retry request => exact ⟨h.done.later hlater, h.started.later hlater⟩
    | settled state job =>
      refine ⟨(h.done.later hlater).set ?_, h.started.later hlater⟩
      intro hrepo hsuccess p hp
      have hopen := hwaiting.awaited result.id hid repoState hget (hplaced.operation hrepo)
      exact attemptResult_complete hhost (hplaced.path hrepo) (hplaced.operation hrepo) hopen
        (fun hpublish => hcond.handle result repoState rfl hrepo (hrepo ▸ hget) hpublish p hp) hrun hsuccess
  | @handleThrow result repoState message world hidle hid hget hrun =>
    exact h.restart (changes_later
      (fun sha p => (hhost.lasting sha p).attemptResult settings systemPrompt result.id True.intro result) hrun)
  | handleUnknown hidle hid hget => exact ⟨h.done, h.started⟩
  | @restage id request found world hretry hrestages hrun =>
    have hlater := changes_later (fun sha p => lifted_keeps ((hhost.lasting sha p).restage request)) hrun
    exact ⟨h.done.later hlater, h.started.later hlater⟩
  | @restageThrow id request message world hretry hrestages hrun =>
    exact h.restart (changes_later (fun sha p => lifted_keeps ((hhost.lasting sha p).restage request)) hrun)
  | @queue id retry repoState job world hretry hready hrun =>
    have hlater := changes_later (fun sha p => lifted_keeps ((hhost.lasting sha p).finishRetry settings systemPrompt id retry)) hrun
    obtain ⟨hfinished, -⟩ := finishRetry_finished host settings systemPrompt id hready
      (congrArg (·.1) hrun : ((finishRetry host settings systemPrompt id retry).run s.world.world).1 = .ok (repoState, job))
    refine ⟨(h.done.later hlater).set ?_, h.started.later hlater⟩
    intro _ hsuccess
    -- a retry never ends in success
    obtain ⟨-, hoperation, hopen⟩ := hwaiting.retry id retry hretry
    cases job with
    | none =>
      rw [hfinished.failed rfl] at hsuccess
      cases hsuccess
    | some queued => exact absurd ((hfinished.queued queued rfl).2 ▸ hsuccess) (hopen hoperation)
  | @queueThrow id retry message world hretry hready hrun =>
    exact h.restart (changes_later
      (fun sha p => lifted_keeps ((hhost.lasting sha p).finishRetry settings systemPrompt id retry)) hrun)
  | delegate hidle hdone => exact ⟨h.done, h.done⟩

/-! ## After phase 1 -/

variable {discovered : List RepositoryInfo} {repos : Repos} {jobs : List DelegatedJob} {world : σ} {w : Traced σ}

theorem placedRun_start (hdiscovered : DiscoveredWith repo repo discovered)
    (hphase : (runDiscoveryAndValidationPhase host settings systemPrompt discovered []).run ⟨world, []⟩ = (.ok (repos, jobs), w)) :
    PlacedRun repo (.phaseStart w ⟨repos, jobs.map (·.id)⟩) := by
  have hplaced : repos.Each (Placed repo repo) := by
    refine runDiscoveryAndValidationPhase_each (p := Placed repo repo) (fun found hfound repoState hpath hoperation => ?_)
      (fun _ _ hp => ⟨hp.path, hp.operation, hp.submodule⟩) _ (repos, jobs) (by rw [hphase])
    refine ⟨fun hid => hpath.trans (hdiscovered.parent found hfound hid).1, fun hid => ?_, fun hsub => ?_⟩
    · rw [hoperation, (hdiscovered.parent found hfound hid).2]
      decide
    · exact hdiscovered.sub found hfound (hpath ▸ hsub)
  exact ⟨hplaced, hplaced, fun id retry hr => by cases hr⟩

theorem completeRun_start
    (hphase : (runDiscoveryAndValidationPhase host settings systemPrompt discovered []).run ⟨world, []⟩ = (.ok (repos, jobs), w)) :
    CompleteRun view repo staged (.phaseStart w ⟨repos, jobs.map (·.id)⟩) := by
  have hnone : Complete view repo staged repos w.world := by
    intro repoState hget hsuccess
    exact absurd hsuccess (runDiscoveryAndValidationPhase_unsuccessful hphase _ _ hget)
  exact ⟨hnone, hnone⟩

/-- In every run of the phases in which results are published only when every path of the
    validated diff is changed on record, or differs from HEAD and is planned, a repository in
    success has every such path changed by a commit on record, in every later state. -/
theorem success_complete (hhost : HasCheckout host view repo.path named) (hdiscovered : DiscoveredWith repo repo discovered)
    (hphase : (runDiscoveryAndValidationPhase host settings systemPrompt discovered []).run ⟨world, []⟩ = (.ok (repos, jobs), w))
    {moves : List (Move σ)}
    (hsteps : Steps ((runMachine host settings systemPrompt).guarded (Covering view repo named (Staged view repo w)))
      (.phaseStart w ⟨repos, jobs.map (·.id)⟩) moves t)
    {repoState : RepoState} (hget : t.batch.repos.get repo.id = some repoState) (hsuccess : repoState.status = .SUCCESS) :
    ∀ p, Staged view repo w p → ∃ c ∈ repoState.recorded, view.changes t.world.world c.sha p := by
  have hfirst : Run (runMachine host settings systemPrompt) [.discover discovered] (.phaseStart w ⟨repos, jobs.map (·.id)⟩) :=
    ⟨_, ⟨world, rfl⟩, Steps.single (.discover rfl hphase)⟩
  have hinv : Waiting t ∧ PlacedRun repo t ∧ CompleteRun view repo (Staged view repo w) t := by
    refine Steps.stable (I := fun t => Waiting t ∧ PlacedRun repo t ∧ CompleteRun view repo (Staged view repo w) t) ?_ hsteps
      ⟨waiting_run hfirst, placedRun_start hdiscovered hphase, completeRun_start hphase⟩
    intro t move u hinv hstep
    obtain ⟨hwaiting, hplaced, hcomplete⟩ := hinv
    obtain ⟨hcond, hstep⟩ := hstep
    exact ⟨waiting_step hwaiting hstep, placedRun_step hplaced hcond.discovered hstep,
      completeRun_step hhost hcomplete hwaiting hplaced hcond hstep⟩
  exact hinv.2.2.done repoState hget hsuccess

end Step

/-! ## Two changed files -/

/-- The id of commit `n`. -/
def commitName (n : Nat) : String := String.ofList ('c' :: List.replicate n '0' ++ ['c'])

theorem trimString_commitName (n : Nat) : trimString (commitName n) = commitName n := by
  have hc : isSpace 'c' = false := by decide
  have hstart : trimStart (commitName n).toList = (commitName n).toList := by
    rw [commitName, String.toList_ofList]
    exact trimStart_stop (a := []) hc
  have hend : trimEnd (commitName n).toList = (commitName n).toList := by
    rw [commitName, String.toList_ofList]
    exact trimEnd_stop (b := []) hc
  rw [trimString, trim, hstart, hend, String.ofList_toList]

/-- `a.ts` and `b.ts`, changed in the working tree: where the new contents have got to, and
    what each commit changed. -/
structure Shelf where
  headA : Bool
  headB : Bool
  indexA : Bool
  indexB : Bool
  commits : Nat
  log : List (String × String)
  deriving DecidableEq, Repr

namespace Shelf

def sha (w : Shelf) : String := commitName w.commits

def stage (files : List String) (w : Shelf) : Shelf :=
  { w with indexA := w.indexA || files.contains "a.ts", indexB := w.indexB || files.contains "b.ts" }

/-- The paths staged. -/
def changed (w : Shelf) : List String :=
  (if w.indexA = w.headA then [] else ["a.ts"]) ++ if w.indexB = w.headB then [] else ["b.ts"]

def commit (w : Shelf) : Except ExecError String × Shelf :=
  if w.changed.isEmpty then (.error (plainError "nothing to commit"), w)
  else
    let created := { w with headA := w.indexA, headB := w.indexB, commits := w.commits + 1 }
    (.ok "", { created with log := w.log ++ w.changed.map fun p => (created.sha, p) })

end Shelf

def shelfTree (a b : Bool) (p : String) : Option String :=
  if p = "a.ts" then some (if a then "new" else "old") else if p = "b.ts" then some (if b then "new" else "old") else none

def shelfDiff : List String → String
  | [] => ""
  | p :: paths => "+" ++ p ++ shelfDiff paths

def shelfView : CheckoutView Shelf where
  head w := shelfTree w.headA w.headB
  index w := shelfTree w.indexA w.indexB
  worktree _ := shelfTree true true
  headSha := Shelf.sha
  changes w sha p := (sha, p) ∈ w.log
  shows diff p := ∃ paths, paths ∈ [[], ["a.ts"], ["b.ts"], ["a.ts", "b.ts"]] ∧ diff = shelfDiff paths ∧ p ∈ paths

def shelfHost : Host Shelf where
  sha256 text := text
  localeCompare _ _ := 0
  execSync _ command := fun w =>
    if command = "git add -A" then (.ok "", w.stage ["a.ts", "b.ts"])
    else if command = "git reset HEAD" then (.ok "", { w with indexA := w.headA, indexB := w.headB })
    else if command = "git rev-parse HEAD" then (.ok w.sha, w)
    else if command = "git diff --cached" then (.ok (shelfDiff w.changed), w)
    else if command = "git status --porcelain" then (.ok " M a.ts\n M b.ts", w)
    else if command = "git symbolic-ref --quiet --short HEAD" then (.ok "main", w)
    else (.ok "", w)
  execFileGit _ args _ := fun w =>
    if args.headD "" = "commit" then w.commit
    else if args.take 3 = ["--literal-pathspecs", "add", "--"] then (.ok "", w.stage (args.drop 3))
    else (.ok "", w)
  writeMessage i _ := pure ("plan-" ++ toString i)
  pathExists _ _ := pure true
  randomUUID := pure "endpoint"
  runTestCascade _ := pure ()

def shelfNamed (files : List String) (p : String) : Bool := files.contains p

theorem shelfTree_eq_iff {a b a' b' : Bool} (p : String) :
    shelfTree a b p = shelfTree a' b' p ↔ (p = "a.ts" → a = a') ∧ (p = "b.ts" → b = b') := by
  unfold shelfTree
  by_cases ha : p = "a.ts"
  · subst ha
    cases a <;> cases a' <;> simp
  · by_cases hb : p = "b.ts"
    · subst hb
      cases b <;> cases b' <;> simp
    · simp [ha, hb]

theorem Shelf.mem_changed {w : Shelf} {p : String} :
    p ∈ w.changed ↔ (p = "a.ts" ∧ w.indexA ≠ w.headA) ∨ (p = "b.ts" ∧ w.indexB ≠ w.headB) := by
  unfold Shelf.changed
  by_cases ha : w.indexA = w.headA <;> by_cases hb : w.indexB = w.headB <;> simp [ha, hb]

/-- What is staged differs from HEAD. -/
theorem Shelf.mem_changed_iff {w : Shelf} {p : String} :
    p ∈ w.changed ↔ shelfTree w.indexA w.indexB p ≠ shelfTree w.headA w.headB p := by
  rw [Shelf.mem_changed, Ne.eq_def (shelfTree _ _ _), shelfTree_eq_iff]
  by_cases ha : p = "a.ts" <;> by_cases hb : p = "b.ts" <;> simp [ha, hb]

theorem Shelf.changed_cases (w : Shelf) : w.changed ∈ [[], ["a.ts"], ["b.ts"], ["a.ts", "b.ts"]] := by
  unfold Shelf.changed
  split <;> split <;> decide

theorem shelfHost_lasting (sha p : String) : KeptBy shelfHost (fun w => shelfView.changes w sha p) fun _ => True where
  shell := by
    intro cwd command _ w hw
    simp only [shelfHost, Action.run]
    split_ifs <;> exact hw
  git := by
    intro cwd args processConfig _ w hw
    simp only [shelfHost, Action.run]
    split_ifs
    · unfold Shelf.commit
      split
      · exact hw
      · exact List.mem_append_left _ hw
    · exact hw
    · exact hw
  writeMessage := fun _ _ _ hw => hw
  pathExists := fun _ _ _ hw => hw
  randomUUID := fun _ hw => hw
  runTestCascade := fun _ _ hw => hw

theorem shelfHost_hasCheckout : HasCheckout shelfHost shelfView "/r" shelfNamed where
  diff := by
    intro w out w' hrun p
    have hout : out = shelfDiff w.changed := by
      cases hrun
      rfl
    subst hout
    refine Iff.trans ⟨fun hshows => ?_, fun hmem => ⟨w.changed, w.changed_cases, rfl, hmem⟩⟩ Shelf.mem_changed_iff
    obtain ⟨paths, hpaths, hdiff, hmem⟩ := hshows
    have hsame : ∀ xs ∈ [[], ["a.ts"], ["b.ts"], ["a.ts", "b.ts"]], ∀ ys ∈ [[], ["a.ts"], ["b.ts"], ["a.ts", "b.ts"]],
        shelfDiff xs = shelfDiff ys → xs = ys := by
      decide
    rwa [hsame _ w.changed_cases _ hpaths hdiff]
  shell := by
    intro command w _
    simp only [shelfHost, Action.run]
    split_ifs <;> exact ⟨rfl, rfl, rfl⟩
  readHead := by
    intro w out w' hrun
    have hout : out = w.sha := by
      cases hrun
      rfl
    rw [hout]
    exact trimString_commitName _
  add := by
    intro files w out w' hrun
    cases hrun
    refine ⟨⟨rfl, rfl, rfl⟩, fun p hnamed => ?_⟩
    have hnamed : files.contains p = true := hnamed
    refine (shelfTree_eq_iff p).mpr ⟨fun hp => ?_, fun hp => ?_⟩
    · show (w.indexA || files.contains "a.ts") = true
      rw [← hp, hnamed, Bool.or_true]
    · show (w.indexB || files.contains "b.ts") = true
      rw [← hp, hnamed, Bool.or_true]
  commit := by
    intro message w out w' hrun
    have hrun : w.commit = (.ok out, w') := hrun
    unfold Shelf.commit at hrun
    split at hrun
    · cases hrun
    · cases hrun
      refine ⟨rfl, rfl, fun p hmoved => ?_⟩
      exact List.mem_append_right _ (List.mem_map.mpr ⟨p, Shelf.mem_changed_iff.mpr hmoved, rfl⟩)
  writeMessage := fun _ _ _ => ⟨⟨rfl, rfl, rfl⟩, rfl⟩
  lasting := shelfHost_lasting

def shelfRepository : RepositoryInfo := ⟨"r", "/r", .commitAndPush, none⟩

/-- Phase 1 on the two files, nothing staged and no commit yet. -/
def shelfPhase : Except String (Repos × List DelegatedJob) × Traced Shelf :=
  (runDiscoveryAndValidationPhase shelfHost nestSettings "" [shelfRepository] []).run ⟨⟨false, false, false, false, 0, []⟩, []⟩

/-- One answer of the planner. -/
def shelfRun (allowed : RunState Shelf → Move Shelf → Bool) (files : List String) (goal : Traced Shelf → RunState Shelf → Bool) :
    Bool :=
  match shelfPhase with
  | (.ok (repos, jobs), w) =>
    (performAll shelfHost nestSettings "" allowed (.phaseStart w ⟨repos, jobs.map (·.id)⟩)
      [.handle (.success "r" (files.map deskPlan))]).any (goal w)
  | (.error _, _) => false

theorem shelfRun_steps {allowed : RunState Shelf → Move Shelf → Bool} {files : List String}
    {goal : Traced Shelf → RunState Shelf → Bool} {cond : Traced Shelf → RunState Shelf → Move Shelf → Prop}
    (hallowed : ∀ w s move, allowed s move = true → cond w s move) (h : shelfRun allowed files goal = true) :
    ∃ repos jobs w t, shelfPhase = (.ok (repos, jobs), w) ∧ goal w t = true ∧
      Steps ((runMachine shelfHost nestSettings "").guarded (cond w)) (.phaseStart w ⟨repos, jobs.map (·.id)⟩)
        [.handle (.success "r" (files.map deskPlan))] t := by
  unfold shelfRun at h
  cases hphase : shelfPhase with
  | mk r w =>
    rw [hphase] at h
    cases r with
    | error message => cases h
    | ok answer =>
      obtain ⟨repos, jobs⟩ := answer
      obtain ⟨t, ht, hgoal⟩ := exists_of_any h
      exact ⟨repos, jobs, w, t, rfl, hgoal, performAll_steps shelfHost nestSettings "" (hallowed w) ht⟩

/-- The validated diff changes both files. -/
def shelfValidated (w : Traced Shelf) : Bool := w.trace == [.scanned "/r" (shelfDiff ["a.ts", "b.ts"])]

def shelfRecords (shas : List CommittedSha) (s : RunState Shelf) : Bool :=
  (s.batch.repos.get "r").any fun repoState => repoState.status == .SUCCESS &&
    repoState.operation == some .commitAndPush && repoState.recorded == shas

/-- The only plan names one of the two changed files, and nothing else happens to the
    repository. The other file is left behind. -/
theorem incomplete_success : HasCheckout shelfHost shelfView shelfRepository.path shelfNamed ∧
    ∃ repos jobs w moves t repoState, shelfPhase = (.ok (repos, jobs), w) ∧
      Steps ((runMachine shelfHost nestSettings "").guarded fun _ move => ∀ world, move ≠ .edit world)
        (.phaseStart w ⟨repos, jobs.map (·.id)⟩) moves t ∧
      t.batch.repos.get shelfRepository.id = some repoState ∧ repoState.operation = some .commitAndPush ∧
      repoState.status = .SUCCESS ∧
      Staged shelfView shelfRepository w "b.ts" ∧ ¬ ∃ c ∈ repoState.recorded, shelfView.changes t.world.world c.sha "b.ts" := by
  refine ⟨shelfHost_hasCheckout, ?_⟩
  have hrun : shelfRun (fun _ move => match move with | .edit _ => false | _ => true) ["a.ts"]
      (fun w t => shelfValidated w && (shelfRecords [⟨"c0c", ["a.ts"]⟩] t && t.world.world.log == [("c0c", "a.ts")])) = true := by
    decide +kernel
  have hunedited : ∀ (_ : Traced Shelf) (_ : RunState Shelf) (move : Move Shelf),
      (match move with | .edit _ => false | _ => true) = true → ∀ world, move ≠ .edit world := by
    intro _ _ move hallowed world hmove
    subst hmove
    cases hallowed
  obtain ⟨repos, jobs, w, t, hphase, hgoal, hsteps⟩ := shelfRun_steps hunedited hrun
  rw [Bool.and_eq_true, Bool.and_eq_true, beq_iff_eq] at hgoal
  obtain ⟨hvalidated, hrecords, hlog⟩ := hgoal
  obtain ⟨repoState, hget, hstate⟩ := exists_of_any hrecords
  rw [Bool.and_eq_true, Bool.and_eq_true, beq_iff_eq, beq_iff_eq, beq_iff_eq] at hstate
  refine ⟨repos, jobs, w, _, t, repoState, hphase, hsteps, hget, hstate.1.2, hstate.1.1, ?_, ?_⟩
  · refine ⟨shelfDiff ["a.ts", "b.ts"], ?_, ["a.ts", "b.ts"], by decide, rfl, by decide⟩
    rw [beq_iff_eq.mp hvalidated]
    exact List.mem_cons_self
  · intro ⟨c, _, hchanges⟩
    have hchanges : (c.sha, "b.ts") ∈ t.world.world.log := hchanges
    rw [hlog] at hchanges
    simp at hchanges

/-- Every changed file is committed on record, or changed still and planned. -/
def shelfAllowed (s : RunState Shelf) : Move Shelf → Bool
  | .edit _ => false
  | .discover _ => false
  | .handle result => ["a.ts", "b.ts"].all fun p =>
      ((s.batch.repos.get "r").all fun repoState => repoState.recorded.any fun c => s.world.world.log.contains (c.sha, p)) ||
      (shelfTree s.world.world.headA s.world.world.headB p != shelfTree true true p &&
        result.plans.any fun plan => shelfNamed plan.files p)
  | .restage | .queue | .delegate => true

theorem shelfAllowed_covering {w : Traced Shelf} {s : RunState Shelf} {move : Move Shelf} (h : shelfAllowed s move = true) :
    Covering shelfView shelfRepository shelfNamed (Staged shelfView shelfRepository w) s move where
  edit := fun world hmove => by
    subst hmove
    cases h
  discovered := fun discovered hmove => by
    subst hmove
    cases h
  handle := fun result repoState hmove _ hget _ p hstaged => by
    subst hmove
    obtain ⟨diff, -, paths, hpaths, -, hmem⟩ := hstaged
    have hp : p ∈ ["a.ts", "b.ts"] := by
      have hall : ∀ paths ∈ [[], ["a.ts"], ["b.ts"], ["a.ts", "b.ts"]], ∀ p ∈ paths, p ∈ ["a.ts", "b.ts"] := by decide
      exact hall paths hpaths p hmem
    have hget : s.batch.repos.get "r" = some repoState := hget
    have hcovered := List.all_eq_true.mp h p hp
    rw [hget, Option.all_some, Bool.or_eq_true, Bool.and_eq_true, bne_iff_ne, List.any_eq_true, List.any_eq_true] at hcovered
    rcases hcovered with ⟨c, hc, hlogged⟩ | ⟨hdiffers, hplanned⟩
    · exact .inl ⟨c, hc, List.contains_iff_mem.mp hlogged⟩
    · exact .inr ⟨hdiffers, hplanned⟩

/-- Each of the two files has a plan. -/
theorem success_complete_shelf : ∃ (w : Traced Shelf) (t : RunState Shelf) (repoState : RepoState),
    t.batch.repos.get "r" = some repoState ∧ repoState.recorded.length = 2 ∧
      (∀ p ∈ ["a.ts", "b.ts"], Staged shelfView shelfRepository w p) ∧
      ∀ p, Staged shelfView shelfRepository w p → ∃ c ∈ repoState.recorded, shelfView.changes t.world.world c.sha p := by
  have hrun : shelfRun shelfAllowed ["a.ts", "b.ts"]
      (fun w t => shelfValidated w && shelfRecords [⟨"c0c", ["a.ts"]⟩, ⟨"c00c", ["b.ts"]⟩] t) = true := by
    decide +kernel
  obtain ⟨repos, jobs, w, t, hphase, hgoal, hsteps⟩ := shelfRun_steps (fun _ _ _ => shelfAllowed_covering) hrun
  rw [Bool.and_eq_true] at hgoal
  obtain ⟨repoState, hget, hstate⟩ := exists_of_any hgoal.2
  rw [Bool.and_eq_true, Bool.and_eq_true, beq_iff_eq, beq_iff_eq, beq_iff_eq] at hstate
  refine ⟨w, t, repoState, hget, by rw [hstate.2]; rfl, fun p hp => ?_, ?_⟩
  · refine ⟨shelfDiff ["a.ts", "b.ts"], ?_, ["a.ts", "b.ts"], by decide, rfl, hp⟩
    rw [beq_iff_eq.mp hgoal.1]
    exact List.mem_cons_self
  · have hdiscovered : DiscoveredWith shelfRepository shelfRepository [shelfRepository] := ⟨by decide, by decide⟩
    have hget : t.batch.repos.get shelfRepository.id = some repoState := hget
    exact success_complete shelfHost_hasCheckout hdiscovered hphase hsteps hget hstate.1.1

end GitCommitsPush.Publication
