/-
  GitCommitsPush.Publication.SubmoduleRuns — what a parent records of its submodule when a
  run ends.

  The invariant has three parts. Once nothing is to come for the submodule in what the phase
  started from, nothing comes for it any more; a parent with a commit that names the
  submodule, or with success, is in a run where that is so; and there the parent's record is
  the submodule's HEAD. Every command keeps that but a commit in the submodule.
-/

import GitCommitsPush.Publication.Discovery
import GitCommitsPush.Publication.Submodules
import GitCommitsPush.Publication.SuccessPushed
import Mathlib.Data.List.Permutation

namespace GitCommitsPush.Publication

open GitCommitsPush.Lib.Effect
open GitCommitsPush.Lib.Runs
open GitCommitsPush.Lib.Trace (lifted lifted_eq_ok)

/-! ## Where the two repositories are -/

/-- A state of the repository `id`: the parent's is a commit-and-push one at its path, and
    the submodule's path is the submodule's only. -/
structure Placed (parent sub : RepositoryInfo) (id : String) (repoState : RepoState) : Prop where
  path : id = parent.id → repoState.repository = parent.path
  operation : id = parent.id → repoState.operation ≠ some .pushOnly
  submodule : repoState.repository = sub.path → id = sub.id

theorem deeperFirst (repos : List RepositoryInfo) :
    (repos.mergeSort fun a b => pathDepth b.path ≤ pathDepth a.path).Pairwise fun a b => pathDepth b.path ≤ pathDepth a.path := by
  refine (@List.pairwise_mergeSort RepositoryInfo (fun a b => decide (pathDepth b.path ≤ pathDepth a.path)) ?_ ?_ repos).imp
    fun h => of_decide_eq_true h
  · intro a b c hab hbc
    have hab := of_decide_eq_true hab
    have hbc := of_decide_eq_true hbc
    exact decide_eq_true (by omega)
  · intro a b
    rw [Bool.or_eq_true, decide_eq_true_eq, decide_eq_true_eq]
    omega

/-- A submodule's path is deeper than its parent's, so discovery never puts it after. -/
theorem runDiscovery_deeperFirst {σ : Type} (host : Host σ) (realPath : String → String) (settings : Settings)
    (repoPaths : List String) : Action.Returns (runDiscovery host realPath settings repoPaths) fun found =>
      found.Pairwise fun a b => pathDepth b.path ≤ pathDepth a.path := by
  unfold runDiscovery
  exact Action.Returns.bind (Action.Returns.any _) fun found _ => Action.Returns.pure (deeperFirst found)

/-- What was discovered: two dirty repositories, one the submodule of the other, no two under
    one id or path. -/
structure DiscoveredWith (parent sub : RepositoryInfo) (discovered : List RepositoryInfo) : Prop where
  parent : ∀ repo ∈ discovered, repo.id = parent.id → repo.path = parent.path ∧ repo.operation = .commitAndPush
  sub : ∀ repo ∈ discovered, repo.path = sub.path → repo.id = sub.id

def Repos.Each (repos : Repos) (p : String → RepoState → Prop) : Prop :=
  ∀ id repoState, repos.get id = some repoState → p id repoState

section Discovery

variable {σ : Type} {host : Host σ} {settings : Settings} {p : String → RepoState → Prop}

theorem Repos.Each.set {repos : Repos} (h : repos.Each p) {id : String} {repoState : RepoState} (hstate : p id repoState) :
    (repos.set id repoState).Each p := by
  intro other state hget
  rw [Repos.get_set] at hget
  split at hget
  · rename_i heq
    cases hget
    exact heq ▸ hstate
  · exact h other state hget

theorem validateRepository_about (repo : RepositoryInfo) :
    Action.Returns (validateRepository host settings repo) fun answer =>
      answer.1.repository = repo.path ∧ answer.1.operation = some repo.operation := by
  unfold validateRepository
  cases hoperation : repo.operation with
  | pushOnly =>
    cases repo.pushSnapshot with
    | none => exact Action.Returns.pure ⟨rfl, rfl⟩
    | some snapshot => exact Action.Returns.pure ⟨rfl, rfl⟩
  | commitAndPush =>
    refine Action.Returns.bind (Action.Returns.any _) fun r _ => ?_
    cases r with
    | ok validated => exact Action.Returns.pure ⟨rfl, rfl⟩
    | error err => exact Action.Returns.pure ⟨rfl, rfl⟩

/-- What phase 1 records of the discovered repositories. -/
theorem validateRepositories_each {repos : List RepositoryInfo} (hrepos : ∀ repo ∈ repos, ∀ repoState : RepoState,
      repoState.repository = repo.path → repoState.operation = some repo.operation → p repo.id repoState)
    (v : Validation) (hv : v.nextRepos.Each p) :
    Action.Returns (validateRepositories host settings v repos) fun v' => v'.nextRepos.Each p := by
  induction repos generalizing v with
  | nil => exact Action.Returns.pure hv
  | cons repo repos ih =>
    refine Action.Returns.bind (validateRepository_about repo) fun answer hanswer => ?_
    refine ih (fun other hother => hrepos other (List.mem_cons_of_mem _ hother)) _ ?_
    exact hv.set (hrepos repo List.mem_cons_self _ hanswer.1 hanswer.2)

theorem runDiscoveryAndValidationPhase_each {systemPrompt : String} {discovered : List RepositoryInfo}
    (hrepos : ∀ repo ∈ discovered, ∀ repoState : RepoState, repoState.repository = repo.path →
      repoState.operation = some repo.operation → p repo.id repoState)
    (hrunning : ∀ id repoState, p id repoState → p id { repoState with status := .RUNNING }) :
    Action.Returns (runDiscoveryAndValidationPhase host settings systemPrompt discovered []) fun answer =>
      answer.1.Each p := by
  unfold runDiscoveryAndValidationPhase
  refine Action.Returns.bind (validateRepositories_each hrepos _ fun id state hget => by cases hget) fun v hv => ?_
  refine Action.Returns.bind (Action.Returns.any _) fun jobs _ => ?_
  refine Action.Returns.pure fun id state hget => ?_
  rw [Repos.get_markRunning] at hget
  obtain ⟨old, hold, rfl⟩ := Option.map_eq_some_iff.mp hget
  split
  · exact hrunning _ _ (hv id old hold)
  · exact hv id old hold

end Discovery

/-! ## The condition -/

section Runs

variable {σ : Type} (view : SubmoduleView σ) (parent sub : RepositoryInfo) (covers : List String → Bool)

/-- Nothing is to come for the repository. -/
structure Settled (id : String) (s : RunState σ) : Prop where
  awaited : id ∉ s.batch.awaited
  retry : ∀ retry, s.retry ≠ some (id, retry)
  queued : ∀ job ∈ s.retryJobs, job.id ≠ id

/-- The parent publishes once nothing is to come for the submodule, with a plan that names
    it or after a commit that did; nobody else commits in the two. -/
structure AfterSubmodule (s : RunState σ) (move : Move σ) : Prop where
  edit : ∀ world, move = .edit world → view.Same s.world.world world
  discover : ∀ discovered, move = .discover discovered → DiscoveredWith parent sub discovered
  handle : ∀ result repoState, move = .handle result → result.id = parent.id →
    s.batch.repos.get parent.id = some repoState → MayPublish repoState result →
    Settled sub.id s ∧ (PlansName covers result.plans ∨ Names covers repoState.recorded)

/-! ## The invariant -/

/-- The parent has a commit that names the submodule, or success. -/
def ParentDone (repos : Repos) : Prop :=
  ∃ repoState, repos.get parent.id = some repoState ∧ (repoState.status = .SUCCESS ∨ Names covers repoState.recorded)

structure ParentInOrder (s : RunState σ) : Prop where
  batch : s.batch.repos.Each (Placed parent sub)
  checkpoint : s.checkpoint.repos.Each (Placed parent sub)
  retry : ∀ id retry, s.retry = some (id, retry) → Placed parent sub id retry.request.repoState
  nonempty : s.checkpoint.repos ≠ [] → s.batch.repos ≠ []
  settled : sub.id ∉ s.checkpoint.awaited → Settled sub.id s
  started : ParentDone parent covers s.checkpoint.repos → sub.id ∉ s.checkpoint.awaited ∧ view.Synced s.world.world
  done : ParentDone parent covers s.batch.repos → Settled sub.id s ∧ view.Synced s.world.world
  retrying : ∀ retry, s.retry = some (parent.id, retry) → Names covers retry.request.repoState.recorded →
    Settled sub.id s ∧ view.Synced s.world.world

end Runs

/-! ## One step -/

section Step

variable {σ : Type} {host : Host σ} {settings : Settings} {systemPrompt : String} {view : SubmoduleView σ}
  {parent sub : RepositoryInfo} {covers : List String → Bool} {s : RunState σ}

theorem handlePushOnlyCheckpointResult_repository (repoState : RepoState) (result : CommitJobResult) :
    Action.Returns (handlePushOnlyCheckpointResult host repoState result settings) fun state =>
      state.repository = repoState.repository := by
  unfold handlePushOnlyCheckpointResult
  cases repoState.pushSnapshot with
  | none => exact Action.Returns.throw _
  | some snapshot =>
    refine Action.Returns.bind (Action.Returns.any _) fun r _ => ?_
    cases r with
    | ok pushedShas => exact Action.Returns.pure rfl
    | error error => exact Action.Returns.pure rfl

/-- A result leaves its repository where it is, and its job is the repository's. -/
theorem attemptResult_placed {repoId : String} {repoState : RepoState} {result : CommitJobResult} {w w' : Traced σ}
    {attempt : Attempt} (hrun : (attemptResult host settings systemPrompt repoId repoState result).run w = (.ok attempt, w')) :
    attempt.repoState.repository = repoState.repository ∧ attempt.repoState.operation = repoState.operation ∧
      ∀ job, attempt.job = some job → job.id = repoId := by
  obtain ⟨events, -, -, heffect⟩ := attemptResult_emits host settings systemPrompt repoId repoState result w
  rw [hrun] at heffect
  have heffect := heffect attempt rfl
  unfold AttemptEffect at heffect
  split at heffect
  · rename_i hpush
    obtain ⟨state, rfl, hstate⟩ := heffect
    unfold attemptResult at hrun
    rw [if_pos hpush] at hrun
    obtain ⟨state', w₁, hstate', hrun⟩ := Action.run_bind_eq_ok hrun
    cases hrun
    exact ⟨handlePushOnlyCheckpointResult_repository repoState result w state (by rw [hstate']), by rw [hpush]; exact hstate,
      fun job hj => (by cases hj)⟩
  · exact ⟨heffect.repository, heffect.operation, heffect.job⟩

theorem Placed.of_same {id : String} {repoState state : RepoState} (h : Placed parent sub id repoState)
    (hrepository : state.repository = repoState.repository) (hoperation : state.operation = repoState.operation) :
    Placed parent sub id state where
  path := fun hid => hrepository.trans (h.path hid)
  operation := fun hid => hoperation ▸ h.operation hid
  submodule := fun hpath => h.submodule (hrepository ▸ hpath)

namespace ParentInOrder

/-- A phase that throws starts again: what it had done to the record is done. -/
theorem restart (h : ParentInOrder view parent sub covers s) {world : Traced σ}
    (hsynced : ParentDone parent covers s.checkpoint.repos → view.Synced world.world) :
    ParentInOrder view parent sub covers (s.restart world) where
  batch := h.checkpoint
  checkpoint := h.checkpoint
  retry := fun id retry hr => by cases hr
  nonempty := id
  settled := fun hsub => ⟨hsub, (fun retry hr => by cases hr), fun job hj => by cases hj⟩
  started := fun hdone => ⟨(h.started hdone).1, hsynced hdone⟩
  done := fun hdone => ⟨⟨(h.started hdone).1, (fun retry hr => by cases hr), fun job hj => by cases hj⟩, hsynced hdone⟩
  retrying := fun retry hr => by cases hr

end ParentInOrder

/-- A result of the parent that is allowed: success, or a commit that names the submodule,
    only once nothing is to come for it and with its HEAD recorded. -/
theorem parent_attempt (hhost : HasSubmodule host view parent.path sub.path covers)
    (h : ParentInOrder view parent sub covers s) {result : CommitJobResult} {repoState : RepoState} {attempt : Attempt}
    {world : Traced σ} (hcond : AfterSubmodule view parent sub covers s (.handle result)) (hid : result.id = parent.id)
    (hget : s.batch.repos.get result.id = some repoState)
    (hrun : (attemptResult host settings systemPrompt result.id repoState result).run s.world = (.ok attempt, world))
    (hdone : attempt.repoState.status = .SUCCESS ∨ Names covers attempt.repoState.recorded) :
    Settled sub.id s ∧ view.Synced world.world := by
  have hplaced := h.batch _ _ hget
  have hrepo := hplaced.path hid
  have hoperation := hplaced.operation hid
  rw [hid] at hget
  have hkept : ParentDone parent covers s.batch.repos → Settled sub.id s ∧ view.Synced world.world := by
    intro hbefore
    obtain ⟨hsettled, hsynced⟩ := h.done hbefore
    have hafter := hhost.kept.attemptResult settings systemPrompt result.id (hrepo ▸ hhost.apart) result s.world hsynced
    rw [hrun] at hafter
    exact ⟨hsettled, hafter⟩
  by_cases hpublish : MayPublish repoState result
  · obtain ⟨hsettled, hnames⟩ := hcond.handle result repoState rfl hid hget hpublish
    rcases hnames with hplans | hnames
    · have hrecords := attemptResult_records hhost settings systemPrompt result.id hrepo hoperation result
        (fun hnames => (h.done ⟨repoState, hget, .inr hnames⟩).2) hrun
      refine ⟨hsettled, ?_⟩
      rcases hdone with hsuccess | hnames
      · rcases hrecords.success hsuccess with hbefore | hempty | hsynced
        · exact (hkept ⟨repoState, hget, .inl hbefore⟩).2
        · -- an empty report carries no plan
          obtain ⟨plan, hmem, -⟩ := hplans
          cases result with
          | success id plans =>
            have hnone : plans = [] := List.isEmpty_iff.mp hempty.2
            rw [hnone] at hmem
            cases hmem
          | error id error => cases hmem
        · exact hsynced hplans
      · exact hrecords.recorded hnames
    · exact hkept ⟨repoState, hget, .inr hnames⟩
  · obtain ⟨hrecorded, hstatus⟩ := attemptResult_unpublished hoperation hpublish s.world attempt (by rw [hrun])
    rcases hdone with hsuccess | ⟨c, hmem, hcovers⟩
    · exact hkept ⟨repoState, hget, .inl (hstatus hsuccess)⟩
    · exact hkept ⟨repoState, hget, .inr ⟨c, hrecorded c hmem, hcovers⟩⟩

theorem Repos.set_ne_nil (repos : Repos) (id : String) (repoState : RepoState) : repos.set id repoState ≠ [] := by
  intro hnil
  have hget := Repos.get_set repos id repoState id
  rw [hnil, if_pos rfl] at hget
  cases hget

/-- A move of another repository leaves the parent where it was. -/
theorem ParentDone.of_set {repos : Repos} {id : String} {repoState : RepoState} (hid : id ≠ parent.id)
    (h : ParentDone parent covers (repos.set id repoState)) : ParentDone parent covers repos := by
  obtain ⟨state, hget, hdone⟩ := h
  rw [Repos.get_set, if_neg hid] at hget
  exact ⟨state, hget, hdone⟩

theorem Settled.answered {id other : String} (h : Settled id s) : Settled id (s.answered other) :=
  ⟨fun hmem => h.awaited (List.mem_filter.mp hmem).1, h.retry, h.queued⟩

theorem Settled.update {id other : String} {world : Traced σ} {repoState : RepoState} {job : Option RetryJob}
    (h : Settled id s) (hother : other ≠ id) (hjob : ∀ queued, job = some queued → queued.id = other) :
    Settled id (s.update world other repoState job) := by
  refine ⟨h.awaited, (fun retry hr => by cases hr), fun queued hqueued => ?_⟩
  rcases List.mem_append.mp hqueued with hqueued | hqueued
  · exact h.queued queued hqueued
  · rw [hjob queued (Option.mem_toList.mp hqueued)]
    exact hother

theorem inOrder_handle (hhost : HasSubmodule host view parent.path sub.path covers)
    (h : ParentInOrder view parent sub covers s) {result : CommitJobResult} {repoState : RepoState} {attempt : Attempt}
    {world : Traced σ} (hcond : AfterSubmodule view parent sub covers s (.handle result))
    (hawaited : result.id ∈ s.batch.awaited) (hget : s.batch.repos.get result.id = some repoState)
    (hrun : (attemptResult host settings systemPrompt result.id repoState result).run s.world = (.ok attempt, world)) :
    ParentInOrder view parent sub covers (s.attempted world result.id attempt) := by
  obtain ⟨hrepository, hoperation, hjob⟩ := attemptResult_placed hrun
  have hplaced := (h.batch _ _ hget).of_same hrepository hoperation
  have hsettled : Settled sub.id s → Settled sub.id (s.attempted world result.id attempt) := by
    intro hsettled
    have hother : result.id ≠ sub.id := fun hid => hsettled.awaited (hid ▸ hawaited)
    cases attempt with
    | settled state job => exact hsettled.answered.update hother hjob
    | retry request =>
      refine ⟨hsettled.answered.awaited, fun retry hr => ?_, hsettled.queued⟩
      exact hother (congrArg Prod.fst (Option.some.inj hr))
  -- nothing is to come for the submodule, so it is not the submodule's result
  have hsynced : Settled sub.id s → view.Synced s.world.world → view.Synced world.world := by
    intro hnone hbefore
    have hother : repoState.repository ≠ sub.path := fun hpath =>
      hnone.awaited ((h.batch _ _ hget).submodule hpath ▸ hawaited)
    have hafter := hhost.kept.attemptResult settings systemPrompt result.id hother result s.world hbefore
    rw [hrun] at hafter
    exact hafter
  have hdone : ParentDone parent covers s.batch.repos →
      Settled sub.id (s.attempted world result.id attempt) ∧ view.Synced world.world := by
    intro hdone
    obtain ⟨hnone, hbefore⟩ := h.done hdone
    exact ⟨hsettled hnone, hsynced hnone hbefore⟩
  have hstarted : ParentDone parent covers s.checkpoint.repos →
      sub.id ∉ s.checkpoint.awaited ∧ view.Synced world.world := by
    intro hdone
    obtain ⟨hnone, hbefore⟩ := h.started hdone
    exact ⟨hnone, hsynced (h.settled hnone) hbefore⟩
  cases attempt with
  | settled state job =>
    refine ⟨h.batch.set hplaced, h.checkpoint, (fun id retry hr => by cases hr), fun _ => Repos.set_ne_nil _ _ _,
      fun hnone => hsettled (h.settled hnone), hstarted, fun hafter => ?_, fun retry hr => by cases hr⟩
    by_cases hid : result.id = parent.id
    · obtain ⟨after, hafter, hstate⟩ := hafter
      have hafter : (s.batch.repos.set result.id state).get parent.id = some after := hafter
      rw [Repos.get_set, if_pos hid] at hafter
      cases hafter
      obtain ⟨hnone, hafter⟩ := parent_attempt hhost h hcond hid hget hrun hstate
      exact ⟨hsettled hnone, hafter⟩
    · exact hdone (ParentDone.of_set hid hafter)
  | retry request =>
    refine ⟨h.batch, h.checkpoint, fun id retry hr => ?_, h.nonempty, fun hnone => hsettled (h.settled hnone), hstarted,
      hdone, fun retry hr hnames => ?_⟩
    · cases hr
      exact hplaced
    · have hid : result.id = parent.id := congrArg Prod.fst (Option.some.inj hr)
      have hretry : Retry.asked request = retry := congrArg Prod.snd (Option.some.inj hr)
      subst hretry
      obtain ⟨hnone, hafter⟩ := parent_attempt hhost h hcond hid hget hrun (.inr hnames)
      exact ⟨hsettled hnone, hafter⟩

theorem inOrder_step (hhost : HasSubmodule host view parent.path sub.path covers)
    (h : ParentInOrder view parent sub covers s) (hwaiting : Waiting s) {move : Move σ} {t : RunState σ}
    (hcond : AfterSubmodule view parent sub covers s move) (hstep : RunStep host settings systemPrompt s move t) :
    ParentInOrder view parent sub covers t := by
  cases hstep with
  | edit world =>
    have hsynced : view.Synced s.world.world → view.Synced world :=
      fun hbefore => hbefore.still (hcond.edit world rfl).still
    have hsettled : Settled sub.id s → Settled sub.id { s with world := { s.world with world } } :=
      fun hnone => ⟨hnone.awaited, hnone.retry, hnone.queued⟩
    exact ⟨h.batch, h.checkpoint, h.retry, h.nonempty, fun hnone => hsettled (h.settled hnone),
      fun hd => ⟨(h.started hd).1, hsynced (h.started hd).2⟩, fun hd => ⟨hsettled (h.done hd).1, hsynced (h.done hd).2⟩,
      fun retry hr hn => ⟨hsettled (h.retrying retry hr hn).1, hsynced (h.retrying retry hr hn).2⟩⟩
  | @discover discovered repos jobs world hfirst hrun =>
    have hdiscovered := hcond.discover discovered rfl
    have hplaced : Repos.Each repos (Placed parent sub) := by
      refine runDiscoveryAndValidationPhase_each ?_ ?_ s.world (repos, jobs) (by rw [hrun])
      · intro repo hmem repoState hpath hoperation
        refine ⟨fun hid => ?_, fun hid => ?_, fun hsub => ?_⟩
        · rw [hpath, (hdiscovered.parent repo hmem hid).1]
        · rw [hoperation, (hdiscovered.parent repo hmem hid).2]
          decide
        · exact hdiscovered.sub repo hmem (hpath ▸ hsub)
      · exact fun id repoState hp => hp.of_same rfl rfl
    obtain ⟨events, -, hall⟩ := runDiscoveryAndValidationPhase_emits (P := fun _ s => s.status ≠ .SUCCESS ∧ s.recorded = [])
      (T := fun _ => True) systemPrompt (fun _ _ _ hp => hp) (fun _ _ hp => ⟨(fun hs => by cases hs), hp.2⟩)
      (fun repo => (validateRepository_emits host settings repo).conseq fun r events hr trace _ =>
        ⟨True.intro, fun answer ha => ⟨(hr.2 answer ha).1, (hr.2 answer ha).2.1⟩⟩) discovered s.world
    have hfresh := (hall [] True.intro).2 (repos, jobs) (by rw [hrun])
    have hnot : ¬ ParentDone parent covers repos := by
      intro ⟨repoState, hget, hdone⟩
      obtain ⟨hstatus, hrecorded⟩ := hfresh _ _ hget
      rcases hdone with hsuccess | ⟨c, hmem, -⟩
      · exact hstatus hsuccess
      · rw [hrecorded] at hmem
        cases hmem
    refine ⟨hplaced, hplaced, (fun id retry hr => by cases hr), id, fun hnone => ?_, fun hd => absurd hd hnot,
      fun hd => absurd hd hnot, fun retry hr => by cases hr⟩
    exact ⟨hnone, (fun retry hr => by cases hr), fun job hj => by cases hj⟩
  | @discoverThrow discovered message world hfirst hrun =>
    refine h.restart fun hdone => ?_
    obtain ⟨repoState, hget, -⟩ := hdone
    have hempty : s.checkpoint.repos = [] := by
      by_cases hnil : s.checkpoint.repos = []
      · exact hnil
      · exact absurd (by rw [hfirst]) (h.nonempty hnil)
    rw [hempty] at hget
    cases hget
  | @handle result repoState attempt world hidle hid hget hrun => exact inOrder_handle hhost h hcond hid hget hrun
  | @handleThrow result repoState message world hidle hid hget hrun =>
    refine h.restart fun hdone => ?_
    obtain ⟨hnone, hbefore⟩ := h.started hdone
    have hother : repoState.repository ≠ sub.path := fun hpath =>
      (h.settled hnone).awaited ((h.batch _ _ hget).submodule hpath ▸ hid)
    have hafter := hhost.kept.attemptResult settings systemPrompt result.id hother result s.world hbefore
    rw [hrun] at hafter
    exact hafter
  | handleUnknown hidle hid hget =>
    exact ⟨h.batch, h.checkpoint, h.retry, h.nonempty, fun hnone => (h.settled hnone).answered, h.started,
      fun hd => ⟨(h.done hd).1.answered, (h.done hd).2⟩, fun retry hr hn =>
      ⟨(h.retrying retry hr hn).1.answered, (h.retrying retry hr hn).2⟩⟩
  | @restage id request found world hretry hrestages hrun =>
    have hsynced : view.Synced s.world.world → view.Synced world.world := by
      intro hbefore
      have hafter := lifted_keeps (hhost.kept.restage request) s.world hbefore
      rw [hrun] at hafter
      exact hafter
    have hsettled : Settled sub.id s → Settled sub.id { s with world, retry := some (id, .restaged request found) } := by
      intro hnone
      refine ⟨hnone.awaited, fun retry hr => ?_, hnone.queued⟩
      have hid : id = sub.id := congrArg Prod.fst (Option.some.inj hr)
      exact hnone.retry (.asked request) (hid ▸ hretry)
    refine ⟨h.batch, h.checkpoint, fun other retry hr => ?_, h.nonempty, fun hnone => hsettled (h.settled hnone),
      fun hd => ⟨(h.started hd).1, hsynced (h.started hd).2⟩, fun hd => ⟨hsettled (h.done hd).1, hsynced (h.done hd).2⟩,
      fun retry hr hn => ?_⟩
    · have hasked := h.retry id (.asked request) hretry
      cases hr
      exact hasked
    · have hid : id = parent.id := congrArg Prod.fst (Option.some.inj hr)
      have hfound : Retry.restaged request found = retry := congrArg Prod.snd (Option.some.inj hr)
      subst hfound
      obtain ⟨hnone, hbefore⟩ := h.retrying (.asked request) (hid ▸ hretry) hn
      exact ⟨hsettled hnone, hsynced hbefore⟩
  | @restageThrow id request message world hretry hrestages hrun =>
    refine h.restart fun hdone => ?_
    have hafter := lifted_keeps (hhost.kept.restage request) s.world (h.started hdone).2
    rw [hrun] at hafter
    exact hafter
  | @queue id retry repoState job world hretry hready hrun =>
    have hsynced : view.Synced s.world.world → view.Synced world.world := by
      intro hbefore
      have hafter := lifted_keeps (hhost.kept.finishRetry settings systemPrompt id retry) s.world hbefore
      rw [hrun] at hafter
      exact hafter
    obtain ⟨hfinished, -⟩ := finishRetry_finished host settings systemPrompt id hready
      (congrArg (·.1) hrun : ((finishRetry host settings systemPrompt id retry).run s.world.world).1 = .ok (repoState, job))
    have hplaced := (h.retry id retry hretry).of_same (congrArg (·.1) hfinished.books) (congrArg (·.2.1) hfinished.books)
    have hrecorded : repoState.recorded = retry.request.repoState.recorded :=
      congrArg (fun books => books.2.2.getD []) hfinished.books
    have hsettled : Settled sub.id s → Settled sub.id (s.update world id repoState job) := by
      intro hnone
      have hother : id ≠ sub.id := fun hid => hnone.retry retry (hid ▸ hretry)
      exact hnone.update hother fun queued hq => (hfinished.queued queued hq).1
    refine ⟨h.batch.set hplaced, h.checkpoint, (fun id retry hr => by cases hr), fun _ => Repos.set_ne_nil _ _ _,
      fun hnone => hsettled (h.settled hnone), fun hd => ⟨(h.started hd).1, hsynced (h.started hd).2⟩, fun hafter => ?_,
      fun retry hr => by cases hr⟩
    by_cases hid : id = parent.id
    · obtain ⟨after, hafter, hstate⟩ := hafter
      have hafter : (s.batch.repos.set id repoState).get parent.id = some after := hafter
      rw [Repos.get_set, if_pos hid] at hafter
      cases hafter
      have hnames : Names covers retry.request.repoState.recorded := by
        rcases hstate with hsuccess | hnames
        · -- a retry never ends in success
          obtain ⟨-, hoperation, hopen⟩ := hwaiting.retry id retry hretry
          cases job with
          | none =>
            rw [hfinished.failed rfl] at hsuccess
            cases hsuccess
          | some queued => exact absurd ((hfinished.queued queued rfl).2 ▸ hsuccess) (hopen hoperation)
        · exact hrecorded ▸ hnames
      obtain ⟨hnone, hbefore⟩ := h.retrying retry (hid ▸ hretry) hnames
      exact ⟨hsettled hnone, hsynced hbefore⟩
    · obtain ⟨hnone, hbefore⟩ := h.done (ParentDone.of_set hid hafter)
      exact ⟨hsettled hnone, hsynced hbefore⟩
  | @queueThrow id retry message world hretry hready hrun =>
    refine h.restart fun hdone => ?_
    have hafter := lifted_keeps (hhost.kept.finishRetry settings systemPrompt id retry) s.world (h.started hdone).2
    rw [hrun] at hafter
    exact hafter
  | delegate hidle hdone =>
    have hnone : Settled sub.id s → sub.id ∉ s.retryJobs.map (·.id) := by
      intro hsettled hmem
      obtain ⟨job, hj, hid⟩ := List.mem_map.mp hmem
      exact hsettled.queued job hj hid
    have hstart : sub.id ∉ s.retryJobs.map (·.id) →
        Settled sub.id (.phaseStart s.world ⟨s.batch.repos, s.retryJobs.map (·.id)⟩) :=
      fun hn => ⟨hn, (fun retry hr => by cases hr), fun job hj => by cases hj⟩
    exact ⟨h.batch, h.batch, (fun id retry hr => by cases hr), id, hstart,
      fun hd => ⟨hnone (h.done hd).1, (h.done hd).2⟩, fun hd => ⟨hstart (hnone (h.done hd).1), (h.done hd).2⟩,
      fun retry hr => by cases hr⟩

theorem inOrder_run (hhost : HasSubmodule host view parent.path sub.path covers) {moves : List (Move σ)}
    (h : Run ((runMachine host settings systemPrompt).guarded (AfterSubmodule view parent sub covers)) moves s) :
    ParentInOrder view parent sub covers s := by
  refine Run.traceInvariant (P := fun _ s => ParentInOrder view parent sub covers s) ?_ ?_ h
  · intro s hs
    obtain ⟨world, rfl⟩ := hs
    have hnot : ¬ ParentDone parent covers [] := fun ⟨_, hget, _⟩ => by cases hget
    exact ⟨(fun id state hget => by cases hget), (fun id state hget => by cases hget), (fun id retry hr => by cases hr),
      (fun hne => absurd rfl hne), (fun _ => ⟨(fun hm => by cases hm), (fun retry hr => by cases hr), fun job hj => by cases hj⟩),
      fun hd => absurd hd hnot, fun hd => absurd hd hnot, fun retry hr => by cases hr⟩
  · intro moves s move t hrun hinv hstep
    exact inOrder_step hhost hinv (waiting_run hrun.of_guarded) hstep.1 hstep.2

/-- In every run in which the parent publishes once nothing is to come for the submodule,
    with a plan that names it or after a commit that did, a parent in success records the
    submodule's HEAD, in every later state. -/
theorem gitlink_is_head (hhost : HasSubmodule host view parent.path sub.path covers) {moves : List (Move σ)}
    (h : Run ((runMachine host settings systemPrompt).guarded (AfterSubmodule view parent sub covers)) moves s)
    {repoState : RepoState} (hget : s.batch.repos.get parent.id = some repoState) (hsuccess : repoState.status = .SUCCESS) :
    view.gitlink s.world.world = view.head s.world.world :=
  ((inOrder_run hhost h).done ⟨repoState, hget, .inl hsuccess⟩).2.1

end Step

/-! ## Two nested repositories -/

/-- `/w` with the submodule `/w/sub`: the submodule's commits are counted, and so are its
    parent's. -/
structure Nest where
  head : Nat
  gitlink : Nat
  staged : Nat
  parentHead : Nat
  deriving DecidableEq, Repr

def nestView : SubmoduleView Nest where
  head w := "s" ++ toString w.head
  gitlink w := "s" ++ toString w.gitlink
  staged w := "s" ++ toString w.staged

/-- Both have a changed file; all that is staged of the submodule is its commit. -/
def nestHost : Host Nest where
  sha256 text := text
  localeCompare _ _ := 0
  execSync cwd command := fun w =>
    if command = "git add -A" ∧ cwd = "/w" then (.ok "", { w with staged := w.head })
    else if command = "git reset HEAD" ∧ cwd = "/w" then (.ok "", { w with staged := w.gitlink })
    else if command = "git rev-parse HEAD" then
      (.ok (if cwd = "/w" then "p" ++ toString w.parentHead else "s" ++ toString w.head), w)
    else if command = "git diff --cached" then (.ok (if cwd = "/w" then "+app" else "+lib"), w)
    else if command = "git status --porcelain" then (.ok " M file", w)
    else if command = "git symbolic-ref --quiet --short HEAD" then (.ok "main", w)
    else (.ok "", w)
  execFileGit cwd args _ := fun w =>
    if args.headD "" = "commit" then
      if cwd = "/w" then (.ok "", { w with gitlink := w.staged, parentHead := w.parentHead + 1 })
      else if cwd = "/w/sub" then (.ok "", { w with head := w.head + 1 })
      else (.ok "", w)
    else if args.take 2 = ["--literal-pathspecs", "add"] ∧ cwd = "/w" ∧ args.contains "sub" = true then
      (.ok "", { w with staged := w.head })
    else (.ok "", w)
  writeMessage i _ := pure ("plan-" ++ toString i)
  pathExists _ _ := pure true
  randomUUID := pure "endpoint"
  runTestCascade _ := pure ()

def namesSub (files : List String) : Bool := files.contains "sub"

theorem nestHost_hasSubmodule : HasSubmodule nestHost nestView "/w" "/w/sub" namesSub where
  apart := by decide
  shell := by
    intro cwd command w _
    simp only [nestHost, Action.run]
    split
    · exact ⟨rfl, rfl, .inr (.inl rfl)⟩
    split
    · exact ⟨rfl, rfl, .inr (.inr rfl)⟩
    split
    · exact ⟨rfl, rfl, .inl rfl⟩
    split
    · exact ⟨rfl, rfl, .inl rfl⟩
    split
    · exact ⟨rfl, rfl, .inl rfl⟩
    split <;> exact ⟨rfl, rfl, .inl rfl⟩
  git := by
    intro cwd args processConfig w hargs
    simp only [nestHost, Action.run, if_neg hargs]
    split
    · exact ⟨rfl, rfl, .inr (.inl rfl)⟩
    · exact ⟨rfl, rfl, .inl rfl⟩
  add := by
    intro files w out w' hcovers hrun
    have hmem : (["--literal-pathspecs", "add", "--"] ++ files).contains "sub" = true := by
      unfold namesSub at hcovers
      rw [List.contains_iff_mem] at hcovers ⊢
      exact List.mem_append_right _ hcovers
    simp only [nestHost, Action.run, hmem] at hrun
    cases hrun
    rfl
  commit := by
    intro cwd args processConfig w hargs hcwd
    simp only [nestHost, Action.run, if_pos hargs]
    split
    · exact ⟨rfl, rfl, .inr rfl⟩
    · exact ⟨rfl, rfl, .inl rfl⟩
  committed := by
    intro message w out w' hrun
    cases hrun
    rfl
  writeMessage := fun _ _ _ => ⟨rfl, rfl, rfl⟩
  pathExists := fun _ _ _ => ⟨rfl, rfl, rfl⟩
  randomUUID := fun _ => ⟨rfl, rfl, rfl⟩
  runTestCascade := fun _ _ => ⟨rfl, rfl, rfl⟩

def nestSettings : Settings := { deskSettings with autoPush := false }

def nestParent : RepositoryInfo := ⟨"/w", "/w", .commitAndPush, none⟩

def nestSub : RepositoryInfo := ⟨"/w/sub", "/w/sub", .commitAndPush, none⟩

/-- The submodule's result, then the parent's. -/
def nestMoves (files : List String) : List (Move Nest) :=
  [.discover [nestSub, nestParent], .handle (.success "/w/sub" [deskPlan "lib.ts"]),
    .handle (.success "/w" (files.map deskPlan))]

def nestRun (allowed : RunState Nest → Move Nest → Bool) (files : List String) : Option (RunState Nest) :=
  performAll nestHost nestSettings "" allowed (.initial ⟨0, 0, 0, 0⟩) (nestMoves files)

/-- Both end in success, and nothing is to come. -/
def nestSucceeds (s : RunState Nest) : Bool :=
  (s.batch.repos.get "/w").any (·.status == .SUCCESS) && (s.batch.repos.get "/w/sub").any (·.status == .SUCCESS) &&
    s.batch.awaited.isEmpty && s.retryJobs.isEmpty

/-- The moves that `AfterSubmodule` allows for certain. -/
def nestAllowed (s : RunState Nest) : Move Nest → Bool
  | .edit _ => false
  | .discover discovered => discovered == [nestSub, nestParent]
  | .handle result => result.id != "/w" ||
      (!s.batch.awaited.contains "/w/sub" && s.retry.isNone && s.retryJobs.isEmpty &&
        result.plans.any fun plan => namesSub plan.files)
  | .restage | .queue | .delegate => true

theorem nestAllowed_afterSubmodule {s : RunState Nest} {move : Move Nest} (h : nestAllowed s move = true) :
    AfterSubmodule nestView nestParent nestSub namesSub s move where
  edit := fun world hmove => by
    subst hmove
    cases h
  discover := fun discovered hmove => by
    subst hmove
    rw [nestAllowed, beq_iff_eq] at h
    subst h
    exact ⟨by decide, by decide⟩
  handle := fun result repoState hmove hid _ _ => by
    subst hmove
    have hid : (result.id != "/w") = false := bne_eq_false_iff_eq.mpr hid
    rw [nestAllowed, hid, Bool.false_or, Bool.and_eq_true, Bool.and_eq_true, Bool.and_eq_true, Bool.not_eq_true',
      ← Bool.not_eq_true, List.contains_iff_mem, Option.isNone_iff_eq_none, List.isEmpty_iff] at h
    obtain ⟨⟨⟨hawaited, hretry⟩, hjobs⟩, hplans⟩ := h
    refine ⟨⟨hawaited, fun retry hr => ?_, fun job hj => ?_⟩, .inl (List.any_eq_true.mp hplans)⟩
    · rw [hretry] at hr
      cases hr
    · rw [hjobs] at hj
      cases hj

/-- The parent's plans name its own file and the submodule. -/
theorem gitlink_is_head_nest : ∃ s : RunState Nest, nestSucceeds s = true ∧ s.world.world.head = 1 ∧
    nestView.gitlink s.world.world = nestView.head s.world.world := by
  have hrun : (nestRun nestAllowed ["app.ts", "sub"]).any (fun t => nestSucceeds t && t.world.world.head == 1) = true := by
    decide +kernel
  obtain ⟨t, ht, hend⟩ := exists_of_any hrun
  rw [Bool.and_eq_true, beq_iff_eq] at hend
  refine ⟨t, hend.1, hend.2, ?_⟩
  have hsucceeds := hend.1
  simp only [nestSucceeds, Bool.and_eq_true] at hsucceeds
  obtain ⟨repoState, hget, hstatus⟩ := exists_of_any hsucceeds.1.1.1
  have hguarded : Run ((runMachine nestHost nestSettings "").guarded (AfterSubmodule nestView nestParent nestSub namesSub))
      (nestMoves ["app.ts", "sub"]) t :=
    ⟨_, ⟨_, rfl⟩, performAll_steps nestHost nestSettings "" (fun _ _ => nestAllowed_afterSubmodule) ht⟩
  have hget : t.batch.repos.get nestParent.id = some repoState := hget
  exact gitlink_is_head nestHost_hasSubmodule hguarded hget (beq_iff_eq.mp hstatus)

theorem nest_discovered : ((runDiscovery nestHost id nestSettings ["/w", "/w/sub"]).run ⟨0, 0, 0, 0⟩).1.toOption =
    some [nestSub, nestParent] := by
  have hfound : (discoverRepositories nestHost id nestSettings [] ["/w", "/w/sub"]).run ⟨0, 0, 0, 0⟩ =
      (.ok [nestParent, nestSub], ⟨0, 0, 0, 0⟩) := rfl
  have hdepth : pathDepth nestSub.path > pathDepth nestParent.path := by decide
  unfold runDiscovery
  rw [Action.run_bind, hfound]
  show some ([nestParent, nestSub].mergeSort fun a b => decide (pathDepth b.path ≤ pathDepth a.path)) = _
  have hsorted := deeperFirst [nestParent, nestSub]
  rcases List.perm_pair.mp (List.mergeSort_perm [nestParent, nestSub] _) with hsame | hsame
  · rw [hsame] at hsorted
    have hle := List.rel_of_pairwise_cons hsorted List.mem_cons_self
    omega
  · rw [hsame]

/-- Discovery puts the submodule first, and its commit lands before the parent's. The plans
    of the parent follow its diff of phase 1, which shows its own file only. -/
theorem stale_gitlink :
    ((runDiscovery nestHost id nestSettings ["/w", "/w/sub"]).run ⟨0, 0, 0, 0⟩).1.toOption = some [nestSub, nestParent] ∧
    ∃ s, Run (runMachine nestHost nestSettings "") (nestMoves ["app.ts"]) s ∧ nestSucceeds s = true ∧
      nestView.gitlink s.world.world ≠ nestView.head s.world.world := by
  refine ⟨nest_discovered, ?_⟩
  have hrun : (nestRun (fun _ _ => true) ["app.ts"]).any (fun t => nestSucceeds t && t.world.world == ⟨1, 0, 0, 1⟩) = true := by
    decide +kernel
  obtain ⟨t, ht, hend⟩ := exists_of_any hrun
  rw [Bool.and_eq_true, beq_iff_eq] at hend
  have hsteps : Run ((runMachine nestHost nestSettings "").guarded fun _ _ => True) (nestMoves ["app.ts"]) t :=
    ⟨_, ⟨_, rfl⟩, performAll_steps nestHost nestSettings "" (fun _ _ _ => True.intro) ht⟩
  refine ⟨t, hsteps.of_guarded, hend.1, ?_⟩
  rw [hend.2]
  decide

end GitCommitsPush.Publication
