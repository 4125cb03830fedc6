/-
  GitCommitsPush.Publication.PhaseRuns — what the phases hand to Turnlock.

  A run goes through discovery and validation, and then through phase 2 for as long as jobs
  are delegated. Turnlock answers each job of a batch once, under its id. Anything may
  happen to the repositories between two steps, and a phase that throws may run again.

  `phases_sound`: the repositories RUNNING in a delegated state are those of its jobs, none
  is PENDING and every state passes the schema; a run that is over has left every
  repository SUCCESS or FAILED, and is reported by that.
-/

import GitCommitsPush.Publication.Discovery
import GitCommitsPush.Publication.PushOnlyRecovery
import GitCommitsPush.Publication.RetryBudget
import GitCommitsPush.Publication.SuccessPushed

namespace GitCommitsPush.Publication

open GitCommitsPush.Lib.Effect
open GitCommitsPush.Lib.Runs
open GitCommitsPush.Lib.Trace (lifted lifted_returns)

/-! ## Results of a phase -/

/-- `PhaseResult`, with the state handed on or last held. -/
inductive PhaseResult where
  | delegateBatch (repos : Repos) (jobIds : List String)
  | done (repos : Repos)
  | fail (repos : Repos)

def finalizeCommitPushPhase (nextRepos : Repos) : PhaseResult :=
  if nextRepos.any fun entry => entry.2.status == .FAILED then .fail nextRepos else .done nextRepos

section Phases

variable {σ : Type} (host : Host σ) (settings : Settings) (systemPrompt : String)

/-- `runDiscoveryAndValidationPhase`, once the repositories are discovered. -/
def validateDiscovered (discovered : List RepositoryInfo) : Action (Traced σ) String PhaseResult :=
  if discovered = [] then pure (.done [])
  else do
    let (nextRepos, jobs) ← runDiscoveryAndValidationPhase host settings systemPrompt discovered []
    if jobs = [] then return finalizeCommitPushPhase nextRepos
    else return .delegateBatch nextRepos (jobs.map (·.id))

/-- `runCommitAndPushPhase`, to its result. -/
def resumePhase (repos : Repos) (results : List CommitJobResult) : Action (Traced σ) String PhaseResult := do
  let (nextRepos, retryJobs) ← runCommitAndPushPhase host settings systemPrompt repos [] results
  if retryJobs = [] then return finalizeCommitPushPhase nextRepos
  else return .delegateBatch nextRepos (retryJobs.map (·.id))

/-! ## Runs -/

inductive PhaseMove where
  | start (repoPaths : List String)
  | resume (results : List CommitJobResult)

variable (realPath : String → String)

/-- The last result of a run, `none` before its first phase has returned. -/
inductive PhaseStep : Option PhaseResult → PhaseMove → Option PhaseResult → Prop
  | start {repoPaths : List String} {discovered : List RepositoryInfo} {result : PhaseResult} {w w₁ : σ} {world world' : Traced σ}
      (hdiscovered : (runDiscovery host realPath settings repoPaths).run w = (.ok discovered, w₁))
      (hdistinct : (discovered.map (·.id)).Nodup)
      (hrun : (validateDiscovered host settings systemPrompt discovered).run world = (.ok result, world')) :
      PhaseStep none (.start repoPaths) (some result)
  | resume {repos : Repos} {jobIds : List String} {results : List CommitJobResult} {result : PhaseResult} {world world' : Traced σ}
      (hanswers : (results.map (·.id)).Perm jobIds)
      (hrun : (resumePhase host settings systemPrompt repos results).run world = (.ok result, world')) :
      PhaseStep (some (.delegateBatch repos jobIds)) (.resume results) (some result)
  | threw (s : Option PhaseResult) (move : PhaseMove) : PhaseStep s move s

def phaseMachine : Machine (Option PhaseResult) PhaseMove where
  init s := s = none
  step := PhaseStep host settings systemPrompt realPath

end Phases

/-! ## Delegated states -/

def Repos.Distinct (repos : Repos) : Prop := (repos.map (·.1)).Nodup

theorem Repos.mem_of_get {repos : Repos} {id : String} {repoState : RepoState} (h : repos.get id = some repoState) :
    (id, repoState) ∈ repos := by
  obtain ⟨entry, hfind, rfl⟩ := Option.map_eq_some_iff.mp h
  have hid : entry.1 = id := by simpa using List.find?_some hfind
  rw [← hid]
  exact List.mem_of_find?_eq_some hfind

theorem Repos.Distinct.get_of_mem {repos : Repos} (h : repos.Distinct) {entry : String × RepoState} (hmem : entry ∈ repos) :
    repos.get entry.1 = some entry.2 := by
  induction repos with
  | nil => cases hmem
  | cons first repos ih =>
    rw [Repos.Distinct, List.map_cons, List.nodup_cons] at h
    rw [Repos.get_cons]
    rcases List.mem_cons.mp hmem with rfl | hmem
    · rw [if_pos rfl]
    · have hne : first.1 ≠ entry.1 := by
        intro he
        rw [he] at h
        exact h.1 (List.mem_map_of_mem hmem)
      rw [if_neg hne]
      exact ih h.2 hmem

theorem Repos.map_fst_set (repos : Repos) (id : String) (repoState : RepoState) :
    (Repos.set repos id repoState).map (·.1) = if (repos.get id).isSome then repos.map (·.1) else repos.map (·.1) ++ [id] := by
  unfold Repos.set
  rw [Repos.any_eq_isSome]
  split
  · rw [List.map_map]
    apply List.map_congr_left
    intro entry _
    simp only [Function.comp_apply]
    split
    · exact (beq_iff_eq.mp (by assumption)).symm
    · rfl
  · rw [List.map_append]
    rfl

theorem Repos.Distinct.set {repos : Repos} (h : repos.Distinct) (id : String) (repoState : RepoState) :
    (repos.set id repoState).Distinct := by
  rw [Repos.Distinct, Repos.map_fst_set]
  split
  · exact h
  · rename_i hnone
    rw [List.nodup_append]
    refine ⟨h, List.nodup_cons.mpr ⟨List.not_mem_nil, List.nodup_nil⟩, ?_⟩
    intro a ha b hb he
    rw [List.mem_singleton.mp hb] at he
    obtain ⟨entry, hentry, rfl⟩ := List.mem_map.mp ha
    rw [← he, h.get_of_mem hentry] at hnone
    exact hnone rfl

theorem Repos.Distinct.markRunning {repos : Repos} (h : repos.Distinct) (ids : List String) :
    (repos.markRunning ids).Distinct := by
  have hkeys : (repos.markRunning ids).map (·.1) = repos.map (·.1) := by
    rw [Repos.markRunning, List.map_map]
    apply List.map_congr_left
    intro entry _
    simp only [Function.comp_apply]
    split <;> rfl
  rw [Repos.Distinct, hkeys]
  exact h

/-- The RUNNING repositories are those with one of the jobs, and each has one. -/
structure Delegated (repos : Repos) (jobIds : List String) : Prop where
  distinct : repos.Distinct
  once : jobIds.Nodup
  known : ∀ id ∈ jobIds, ∃ repoState, repos.get id = some repoState
  running : ∀ id repoState, repos.get id = some repoState → (repoState.status = .RUNNING ↔ id ∈ jobIds)
  notPending : ∀ id repoState, repos.get id = some repoState → repoState.status ≠ .PENDING
  schema : ∀ id repoState, repos.get id = some repoState → repoStateSchema repoState = true

/-- What a result of a phase says of the repositories. -/
def PhaseResult.Sound : PhaseResult → Prop
  | delegateBatch repos jobIds => jobIds ≠ [] ∧ Delegated repos jobIds
  | done repos => ∀ id repoState, repos.get id = some repoState → repoState.status = .SUCCESS
  | fail repos => (∀ id repoState, repos.get id = some repoState → repoState.status = .SUCCESS ∨ repoState.status = .FAILED) ∧
      ∃ id repoState, repos.get id = some repoState ∧ repoState.status = .FAILED

namespace Delegated

variable {repos : Repos} {jobIds : List String}

theorem perm (h : Delegated repos jobIds) {others : List String} (hperm : jobIds.Perm others) : Delegated repos others where
  distinct := h.distinct
  once := hperm.nodup_iff.mp h.once
  known := fun id hid => h.known id (hperm.mem_iff.mpr hid)
  running := fun id repoState hget => (h.running id repoState hget).trans hperm.mem_iff
  notPending := h.notPending
  schema := h.schema

/-- A repository moves on, to a job or to its end. -/
theorem set (h : Delegated repos jobIds) {id : String} {others : List String} {repoState : RepoState} (honce : others.Nodup)
    (hothers : ∀ other, other ≠ id → (other ∈ others ↔ other ∈ jobIds)) (hrunning : repoState.status = .RUNNING ↔ id ∈ others)
    (hpending : repoState.status ≠ .PENDING) (hschema : repoStateSchema repoState = true) :
    Delegated (repos.set id repoState) others where
  distinct := h.distinct.set id repoState
  once := honce
  known := by
    intro other hother
    rw [Repos.get_set]
    split
    · exact ⟨repoState, rfl⟩
    · rename_i hne
      exact h.known other ((hothers other (Ne.symm hne)).mp hother)
  running := by
    intro other state hget
    rw [Repos.get_set] at hget
    split at hget
    · rename_i he
      cases hget
      rw [← he]
      exact hrunning
    · rename_i hne
      exact (h.running other state hget).trans (hothers other (Ne.symm hne)).symm
  notPending := by
    intro other state hget
    rw [Repos.get_set] at hget
    split at hget
    · cases hget
      exact hpending
    · exact h.notPending other state hget
  schema := by
    intro other state hget
    rw [Repos.get_set] at hget
    split at hget
    · cases hget
      exact hschema
    · exact h.schema other state hget

theorem again {id : String} (h : Delegated repos (id :: jobIds)) {repoState : RepoState} (hstatus : repoState.status = .RUNNING)
    (hschema : repoStateSchema repoState = true) : Delegated (repos.set id repoState) (id :: jobIds) := by
  refine h.set h.once (fun _ _ => Iff.rfl) ⟨fun _ => List.mem_cons_self, fun _ => hstatus⟩ ?_ hschema
  rw [hstatus]
  exact fun h => by cases h

theorem ended {id : String} (h : Delegated repos (id :: jobIds)) {repoState : RepoState}
    (hstatus : repoState.status = .SUCCESS ∨ repoState.status = .FAILED) (hschema : repoStateSchema repoState = true) :
    Delegated (repos.set id repoState) jobIds := by
  obtain ⟨hid, honce⟩ := List.nodup_cons.mp h.once
  refine h.set honce ?_ ?_ ?_ hschema
  · intro other hne
    rw [List.mem_cons]
    exact ⟨.inr, fun hmem => hmem.resolve_left hne⟩
  · constructor
    · intro hrunning
      rcases hstatus with hs | hs <;> rw [hs] at hrunning <;> cases hrunning
    · exact fun hmem => absurd hmem hid
  · rcases hstatus with hs | hs <;> rw [hs] <;> exact fun h => by cases h

/-- With no job left the run is over, and its report counts the failures. -/
theorem finalized (h : Delegated repos []) : (finalizeCommitPushPhase repos).Sound := by
  have hover : ∀ id repoState, repos.get id = some repoState → repoState.status = .SUCCESS ∨ repoState.status = .FAILED := by
    intro id repoState hget
    have hrunning := h.running id repoState hget
    have hpending := h.notPending id repoState hget
    cases hstatus : repoState.status with
    | PENDING => exact absurd hstatus hpending
    | RUNNING => cases hrunning.mp hstatus
    | SUCCESS => exact .inl rfl
    | FAILED => exact .inr rfl
  unfold finalizeCommitPushPhase
  split
  · rename_i hany
    obtain ⟨entry, hentry, hfailed⟩ := List.any_eq_true.mp hany
    exact ⟨hover, entry.1, entry.2, h.distinct.get_of_mem hentry, beq_iff_eq.mp hfailed⟩
  · rename_i hnone
    intro id repoState hget
    rcases hover id repoState hget with hs | hs
    · exact hs
    · have hany : repos.any (fun entry => entry.2.status == .FAILED) = true :=
        List.any_eq_true.mpr ⟨(id, repoState), Repos.mem_of_get hget, beq_iff_eq.mpr hs⟩
      exact absurd hany hnone

end Delegated

/-! ## Phase 2 -/

section Resume

variable {σ : Type} (host : Host σ) (settings : Settings) (systemPrompt : String)

theorem schema_of_evidence {before after : RepoState} (hoperation : after.operation = before.operation)
    (hevidence : after.evidence = before.evidence) (hcommit : before.operation ≠ some .pushOnly)
    (h : repoStateSchema before = true) : repoStateSchema after = true := by
  have hsnapshot : after.pushSnapshot = before.pushSnapshot := congrArg (·.1) hevidence
  have hshas : after.pushedShas = before.pushedShas := congrArg (·.2) hevidence
  rw [repoStateSchema, pushEvidence, if_neg hcommit] at h
  rw [repoStateSchema, pushEvidence, hoperation, if_neg hcommit, hsnapshot, hshas]
  exact h

/-- A checkpoint that is published pushes the complete list. -/
theorem publishCheckpoint_complete (repoState : RepoState) (snapshot : TrackedPushSnapshot) (result : CommitJobResult) :
    Action.Returns (publishCheckpoint host repoState snapshot result settings) fun pushedShas =>
      pushedShas = snapshot.outgoingShas := by
  cases result with
  | error id message => exact Action.Returns.throw _
  | success id commits =>
    unfold publishCheckpoint
    refine Action.Returns.ite (fun _ => Action.Returns.throw _) fun _ => ?_
    refine Action.Returns.bind (Action.Returns.any _) fun pushedShas _ => ?_
    exact Action.Returns.ite (fun _ => Action.Returns.throw _) fun hsame => Action.Returns.pure (Decidable.not_not.mp hsame)

theorem handlePushOnlyCheckpointResult_schema {before : RepoState} (hpush : before.operation = some .pushOnly)
    (hschema : repoStateSchema before = true) (result : CommitJobResult) :
    Action.Returns (handlePushOnlyCheckpointResult host before result settings) fun after => repoStateSchema after = true := by
  unfold handlePushOnlyCheckpointResult
  cases hsnapshot : before.pushSnapshot with
  | none => exact Action.Returns.throw _
  | some snapshot =>
    rw [repoStateSchema, pushEvidence, if_pos hpush, hsnapshot, Bool.and_eq_true, Bool.and_eq_true] at hschema
    obtain ⟨⟨hformed, hids⟩, -⟩ := hschema
    have hpublish := publishCheckpoint_complete host settings before snapshot result
    intro w after h
    rw [Action.run_bind, Action.run_outcome] at h
    have hpublish := hpublish w
    cases hr : (publishCheckpoint host before snapshot result settings).run w with
    | mk r w' =>
      rw [hr] at h hpublish
      cases r with
      | ok pushedShas =>
        cases h
        have hall : snapshot.outgoingShas.all gitObjectIdSchema = true := by
          simp only [Option.all_some, pushSnapshotSchema, Bool.and_eq_true] at hformed
          exact hformed.1.2.2
        rw [hpublish pushedShas rfl]
        simp only [repoStateSchema, pushEvidence, hformed, hall, if_true, Option.isSome_some, Option.all_some, Option.map_some,
          beq_self_eq_true, Bool.and_self, Bool.or_true]
      | error error =>
        cases h
        simp only [repoStateSchema, pushEvidence, hformed, hids, if_true, Option.isSome_some, Bool.and_self, Bool.true_and,
          Bool.or_eq_true, bne_iff_ne]
        exact .inl fun h => by cases h

theorem handleResult_schema (repoId : String) {before : RepoState} (hschema : repoStateSchema before = true)
    (result : CommitJobResult) :
    Action.Returns (handleResult host settings systemPrompt repoId before result) fun answer =>
      repoStateSchema answer.1 = true := by
  by_cases hpush : before.operation = some .pushOnly
  · unfold handleResult attemptResult
    rw [if_pos hpush]
    refine Action.Returns.bind (Q := fun attempt => ∃ after, attempt = .settled after none ∧ repoStateSchema after = true) ?_ ?_
    · refine Action.Returns.bind (handlePushOnlyCheckpointResult_schema host settings hpush hschema result) fun after h => ?_
      exact Action.Returns.pure ⟨after, rfl, h⟩
    · intro attempt h
      obtain ⟨after, rfl, hafter⟩ := h
      exact Action.Returns.pure hafter
  · intro w answer h
    have hcharged := handleResult_charged host settings systemPrompt repoId before result w answer h
    exact schema_of_evidence hcharged.operation (hcharged.evidence hpush) hpush hschema

/-- The results of a batch, one for each job, leave the repositories with the retry jobs. -/
theorem runCommitAndPushPhase_delegated (results : List CommitJobResult) (repos : Repos) (retryJobs : List RetryJob)
    (h : Delegated repos (results.map (·.id) ++ retryJobs.map (·.id))) :
    Action.Returns (runCommitAndPushPhase host settings systemPrompt repos retryJobs results) fun answer =>
      Delegated answer.1 (answer.2.map (·.id)) := by
  induction results generalizing repos retryJobs with
  | nil => exact Action.Returns.pure h
  | cons result results ih =>
    obtain ⟨before, hget⟩ := h.known result.id List.mem_cons_self
    have hrunning : before.status = .RUNNING := (h.running result.id before hget).mpr List.mem_cons_self
    unfold runCommitAndPushPhase
    simp only [hget]
    have hhandled : Action.Returns (handleResult host settings systemPrompt result.id before result) fun answer =>
        Charged host settings result.id result before answer.1 answer.2 ∧ repoStateSchema answer.1 = true :=
      fun w answer hanswer => ⟨handleResult_charged host settings systemPrompt result.id before result w answer hanswer,
        handleResult_schema host settings systemPrompt result.id (h.schema result.id before hget) result w answer hanswer⟩
    refine Action.Returns.bind hhandled fun answer hanswer => ?_
    obtain ⟨after, job⟩ := answer
    obtain ⟨hcharged, hschema⟩ := hanswer
    apply ih
    rcases hcharged.status with ⟨rfl, hover⟩ | ⟨queued, rfl, hid, hsame⟩
    · rw [Option.toList_none, List.append_nil]
      exact h.ended hover hschema
    · rw [Option.toList_some, List.map_append, List.map_cons, List.map_nil, hid, ← List.append_assoc]
      refine (h.again (hsame.trans hrunning) hschema).perm ?_
      exact (List.perm_append_singleton _ _).symm

theorem resumePhase_sound {repos : Repos} {jobIds : List String} {results : List CommitJobResult}
    (h : Delegated repos jobIds) (hanswers : (results.map (·.id)).Perm jobIds) :
    Action.Returns (resumePhase host settings systemPrompt repos results) PhaseResult.Sound := by
  have hdue : Delegated repos (results.map (·.id) ++ ([] : List RetryJob).map (·.id)) := by
    rw [List.map_nil, List.append_nil]
    exact h.perm hanswers.symm
  unfold resumePhase
  refine Action.Returns.bind (runCommitAndPushPhase_delegated host settings systemPrompt results repos [] hdue) fun answer hend => ?_
  obtain ⟨nextRepos, retryJobs⟩ := answer
  refine Action.Returns.ite (fun hnone => ?_) fun hsome => ?_
  · rw [hnone] at hend
    exact Action.Returns.pure hend.finalized
  · exact Action.Returns.pure ⟨fun he => hsome (List.map_eq_nil_iff.mp he), hend⟩

end Resume

/-! ## Phase 1 -/

theorem Repos.get_set_markRunning (repos : Repos) {ids : List String} {id : String} (hid : id ∉ ids) (repoState : RepoState)
    (other : String) :
    ((repos.set id repoState).markRunning ids).get other = ((repos.markRunning ids).set id repoState).get other := by
  rw [Repos.get_markRunning, Repos.get_set, Repos.get_set, Repos.get_markRunning]
  by_cases he : id = other
  · subst he
    have hfalse : ids.contains id = false := by
      rw [Bool.eq_false_iff, ne_eq, List.contains_iff_mem]
      exact hid
    rw [if_pos rfl, if_pos rfl, Option.map_some, hfalse]
    rfl
  · rw [if_neg he, if_neg he]

theorem Repos.get_set_markRunning_snoc (repos : Repos) (ids : List String) (id : String) (repoState : RepoState)
    (other : String) : ((repos.set id repoState).markRunning (ids ++ [id])).get other =
      ((repos.markRunning ids).set id { repoState with status := .RUNNING }).get other := by
  rw [Repos.get_markRunning, Repos.get_set, Repos.get_set, Repos.get_markRunning]
  by_cases he : id = other
  · subst he
    have htrue : (ids ++ [id]).contains id = true := List.contains_iff_mem.mpr (List.mem_append_right _ List.mem_cons_self)
    rw [if_pos rfl, if_pos rfl, Option.map_some, htrue]
    rfl
  · have hcontains : (ids ++ [id]).contains other = ids.contains other := by
      rw [Bool.eq_iff_iff, List.contains_iff_mem, List.contains_iff_mem, List.mem_append, List.mem_singleton]
      exact or_iff_left (Ne.symm he)
    rw [if_neg he, if_neg he, hcontains]

theorem Delegated.congr {repos others : Repos} {jobIds : List String} (h : Delegated repos jobIds) (hdistinct : others.Distinct)
    (hget : ∀ id, others.get id = repos.get id) : Delegated others jobIds where
  distinct := hdistinct
  once := h.once
  known := fun id hid => by rw [hget]; exact h.known id hid
  running := fun id repoState hid => h.running id repoState (hget id ▸ hid)
  notPending := fun id repoState hid => h.notPending id repoState (hget id ▸ hid)
  schema := fun id repoState hid => h.schema id repoState (hget id ▸ hid)

/-- A state goes with what was validated, and will pass the schema when it is delegated. -/
def ValidatedAs (id : String) (repoState : RepoState) : Validated → Prop
  | .planning validRepo => validRepo.id = id ∧ repoStateSchema { repoState with status := .RUNNING } = true
  | .checkpointed => repoState.status = .RUNNING ∧ repoStateSchema repoState = true
  | .failed => repoState.status = .FAILED ∧ repoStateSchema repoState = true

/-- The states so far, as they would be delegated. -/
structure Validating (v : Validation) : Prop where
  distinct : v.nextRepos.Distinct
  delegated : Delegated (v.nextRepos.markRunning (v.validRepos.map (·.id)))
    (v.checkpointJobs.map (·.id) ++ v.validRepos.map (·.id))

theorem Validating.add {v : Validation} (h : Validating v) {repo : RepositoryInfo} {repoState : RepoState}
    {validated : Validated} (hnew : v.nextRepos.get repo.id = none) (hvalidated : ValidatedAs repo.id repoState validated) :
    Validating (v.add repo repoState validated) := by
  have hdistinct := h.distinct.set repo.id repoState
  have hfresh : repo.id ∉ v.checkpointJobs.map (·.id) ++ v.validRepos.map (·.id) := by
    intro hmem
    obtain ⟨old, hold⟩ := h.delegated.known repo.id hmem
    rw [Repos.get_markRunning, hnew] at hold
    cases hold
  have hvalid : repo.id ∉ v.validRepos.map (·.id) := fun hmem => hfresh (List.mem_append_right _ hmem)
  have hget := Repos.get_set_markRunning v.nextRepos hvalid repoState
  refine ⟨hdistinct, ?_⟩
  cases validated with
  | planning validRepo =>
    obtain ⟨hid, hschema⟩ := hvalidated
    have honce : (v.checkpointJobs.map (·.id) ++ (v.validRepos.map (·.id) ++ [repo.id])).Nodup := by
      rw [← List.append_assoc]
      exact (List.perm_append_singleton _ _).nodup_iff.mpr (List.nodup_cons.mpr ⟨hfresh, h.delegated.once⟩)
    simp only [Validation.add, List.map_append, List.map_cons, List.map_nil, hid]
    refine Delegated.congr (h.delegated.set honce ?_ ?_ (fun h => by cases h) hschema) (hdistinct.markRunning _)
      (Repos.get_set_markRunning_snoc v.nextRepos _ repo.id repoState)
    · intro other hne
      simp only [List.mem_append, List.mem_singleton, hne, or_false]
    · exact ⟨fun _ => List.mem_append_right _ (List.mem_append_right _ List.mem_cons_self), fun _ => rfl⟩
  | checkpointed =>
    obtain ⟨hrunning, hschema⟩ := hvalidated
    have hid : (DelegatedJob.checkpointPushOnly repo.id repo.path).id = repo.id := rfl
    have honce : (v.checkpointJobs.map (·.id) ++ [repo.id] ++ v.validRepos.map (·.id)).Nodup := by
      rw [List.append_assoc, List.singleton_append]
      exact List.perm_middle.nodup_iff.mpr (List.nodup_cons.mpr ⟨hfresh, h.delegated.once⟩)
    simp only [Validation.add, List.map_append, List.map_cons, List.map_nil, hid]
    refine Delegated.congr (h.delegated.set honce ?_ ?_ (by rw [hrunning]; exact fun h => by cases h) hschema)
      (hdistinct.markRunning _) hget
    · intro other hne
      simp only [List.mem_append, List.mem_singleton, hne, or_false]
    · exact ⟨fun _ => List.mem_append_left _ (List.mem_append_right _ List.mem_cons_self), fun _ => hrunning⟩
  | failed =>
    obtain ⟨hfailed, hschema⟩ := hvalidated
    refine Delegated.congr (h.delegated.set h.delegated.once (fun _ _ => Iff.rfl) ?_ (by rw [hfailed]; exact fun h => by cases h)
      hschema) (hdistinct.markRunning _) hget
    exact ⟨(fun h => by rw [hfailed] at h; cases h), fun hmem => absurd hmem hfresh⟩

section Start

variable {σ : Type} (host : Host σ) (settings : Settings) (systemPrompt : String)

theorem validateRepository_validated {repo : RepositoryInfo} (hformed : repo.Formed) :
    Action.Returns (validateRepository host settings repo) fun answer => ValidatedAs repo.id answer.1 answer.2 := by
  unfold RepositoryInfo.Formed at hformed
  unfold validateRepository
  cases hoperation : repo.operation with
  | pushOnly =>
    simp only [hoperation] at hformed
    obtain ⟨snapshot, hsnapshot, hvalid⟩ := hformed
    rw [hsnapshot]
    refine Action.Returns.pure ⟨rfl, ?_⟩
    simp only [repoStateSchema, pushEvidence, if_true, Option.all_some, Option.all_none, hvalid, Option.isSome_some, Bool.true_and]
    rfl
  | commitAndPush =>
    simp only [hoperation] at hformed
    refine Action.Returns.bind (Action.Returns.any _) fun r _ => ?_
    cases r with
    | ok validated => exact Action.Returns.pure ⟨rfl, rfl⟩
    | error err =>
      refine Action.Returns.pure ⟨rfl, ?_⟩
      rw [hformed]
      rfl

theorem validateRepositories_validating (discovered : List RepositoryInfo) (hformed : ∀ repo ∈ discovered, repo.Formed)
    (hdistinct : (discovered.map (·.id)).Nodup) {v : Validation} (h : Validating v)
    (hnew : ∀ repo ∈ discovered, v.nextRepos.get repo.id = none) :
    Action.Returns (validateRepositories host settings v discovered) Validating := by
  induction discovered generalizing v with
  | nil => exact Action.Returns.pure h
  | cons repo discovered ih =>
    rw [List.map_cons, List.nodup_cons] at hdistinct
    unfold validateRepositories
    refine Action.Returns.bind (validateRepository_validated host settings (hformed repo List.mem_cons_self)) fun answer hanswer => ?_
    refine ih (fun other hother => hformed other (List.mem_cons_of_mem _ hother)) hdistinct.2
      (h.add (hnew repo List.mem_cons_self) hanswer) fun other hother => ?_
    show (v.nextRepos.set repo.id answer.1).get other.id = none
    have hne : repo.id ≠ other.id := by
      intro he
      rw [he] at hdistinct
      exact hdistinct.1 (List.mem_map_of_mem hother)
    rw [Repos.get_set, if_neg hne]
    exact hnew other (List.mem_cons_of_mem _ hother)

theorem planningJobs_ids (validRepos : List ValidRepo) :
    Action.Returns (planningJobs host settings systemPrompt validRepos) fun jobs =>
      jobs.map (·.id) = validRepos.map (·.id) := by
  induction validRepos with
  | nil => exact Action.Returns.pure rfl
  | cons validRepo validRepos ih =>
    unfold planningJobs
    refine Action.Returns.bind (Action.Returns.any _) fun diff _ => ?_
    refine Action.Returns.bind ih fun jobs hjobs => ?_
    exact Action.Returns.pure (by rw [List.map_cons, List.map_cons, hjobs]; rfl)

theorem validateDiscovered_sound {discovered : List RepositoryInfo} (hformed : ∀ repo ∈ discovered, repo.Formed)
    (hdistinct : (discovered.map (·.id)).Nodup) :
    Action.Returns (validateDiscovered host settings systemPrompt discovered) PhaseResult.Sound := by
  have hempty : Validating ⟨[], [], []⟩ := by
    refine ⟨List.nodup_nil, List.nodup_nil, List.nodup_nil, ?_, ?_, ?_, ?_⟩
    · intro id hid
      cases hid
    · intro id repoState hget
      cases hget
    · intro id repoState hget
      cases hget
    · intro id repoState hget
      cases hget
  have hphase : Action.Returns (runDiscoveryAndValidationPhase host settings systemPrompt discovered []) fun answer =>
      Delegated answer.1 (answer.2.map (·.id)) := by
    unfold runDiscoveryAndValidationPhase
    refine Action.Returns.bind (validateRepositories_validating host settings discovered hformed hdistinct hempty
      fun _ _ => rfl) fun v hv => ?_
    refine Action.Returns.bind (lifted_returns (planningJobs_ids host settings systemPrompt v.validRepos)) fun jobs hjobs => ?_
    refine Action.Returns.pure ?_
    rw [List.map_append, hjobs]
    exact hv.delegated
  unfold validateDiscovered
  refine Action.Returns.ite (fun _ => ?_) fun _ => ?_
  · exact Action.Returns.pure fun id repoState hget => by cases hget
  refine Action.Returns.bind hphase fun answer hend => ?_
  obtain ⟨nextRepos, jobs⟩ := answer
  refine Action.Returns.ite (fun hnone => ?_) fun hsome => ?_
  · rw [hnone] at hend
    exact Action.Returns.pure hend.finalized
  · exact Action.Returns.pure ⟨fun he => hsome (List.map_eq_nil_iff.mp he), hend⟩

end Start

/-! ## Every run -/

section Sound

variable {σ : Type} {host : Host σ} {settings : Settings} {systemPrompt : String} {realPath : String → String}

/-- After every step of every run, what was last handed to Turnlock is consistent. -/
theorem phases_sound (hids : PrintsIds host) {moves : List PhaseMove} {s : Option PhaseResult}
    (h : Run (phaseMachine host settings systemPrompt realPath) moves s) : ∀ result, s = some result → result.Sound := by
  refine Run.invariant (I := fun s => ∀ result, s = some result → result.Sound) ?_ ?_ h
  · intro s hs result hresult
    rw [show s = none from hs] at hresult
    cases hresult
  · intro s move t hs hstep
    cases hstep with
    | @start repoPaths discovered result w w₁ world world' hdiscovered hdistinct hrun =>
      intro result' hresult
      cases hresult
      have hformed := runDiscovery_formed realPath hids settings repoPaths w discovered (by rw [hdiscovered])
      exact validateDiscovered_sound host settings systemPrompt hformed hdistinct world result (by rw [hrun])
    | @resume repos jobIds results result world world' hanswers hrun =>
      intro result' hresult
      cases hresult
      have hdelegated := (hs _ rfl).2
      exact resumePhase_sound host settings systemPrompt hdelegated hanswers world result (by rw [hrun])
    | threw s move => exact hs

end Sound

/-! ## A clean clone and a dirty one -/

/-- The clone is ahead of its remote until it is pushed, the world; `/dirty` has changes. -/
def twoHost : Host Bool where
  sha256 text := String.ofList (List.replicate 64 (if text = "/dirty" then 'd' else 'c'))
  localeCompare _ _ := 0
  execSync cwd command := fun pushed =>
    if command = "git symbolic-ref --quiet --short HEAD" then (.ok "main\n", pushed)
    else if cwd = "/dirty" ∧ command = "git status --porcelain" then (.ok " M file\n", pushed)
    else if command = "git diff --cached" then (.ok "diff", pushed)
    else (.ok "", pushed)
  execFileGit _ args _ := fun pushed => match args with
    | ["rev-parse", "HEAD"] => (.ok (ObjectId.twos.text ++ "\n"), pushed)
    | ["rev-list", "--reverse", _] => (.ok (ObjectId.twos.text ++ "\n"), pushed)
    | ["ls-remote", "--", _, _] =>
      (.ok (String.ofList ((if pushed then ObjectId.twos else ObjectId.ones).text.toList ++ '\t' :: "refs/heads/main\n".toList)),
        pushed)
    | ["merge-base", "--is-ancestor", ancestor, _] =>
      if ancestor = ObjectId.ones.text then (.ok "", pushed) else (.error (plainError "not an ancestor"), pushed)
    | "push" :: _ => (.ok "", true)
    | ["remote"] => (.ok "origin\n", pushed)
    | "remote" :: _ => (.ok "https://host/repository\n", pushed)
    | "symbolic-ref" :: _ => (.ok "main\n", pushed)
    | "rev-parse" :: _ => (.ok "origin/main\n", pushed)
    | ["config", "--get", "branch.main.remote"] => (.ok "origin\n", pushed)
    | ["config", "--get", "branch.main.merge"] => (.ok "refs/heads/main\n", pushed)
    | _ => (.ok "", pushed)
  writeMessage _ _ := pure ""
  pathExists _ _ := pure true
  randomUUID := pure "endpoint"
  runTestCascade _ := pure ()

theorem twoHost_printsIds : PrintsIds twoHost where
  head := fun _ _ out h => ⟨.twos, (Except.ok.inj h).symm⟩
  listed := by
    intro cwd range w out h
    cases h
    decide +kernel
  remote := by
    intro cwd processConfig remote ref w out h
    cases h
    exact .inr ⟨_, _, rfl⟩
  digest := by
    intro text
    simp only [twoHost]
    split <;> decide +kernel

def twoStart : Option (List RepositoryInfo) :=
  ((discoverRepositories twoHost id pushingSettings [] ["/clone", "/dirty"]).run false).1.toOption

def twoDelegated : Option PhaseResult :=
  twoStart.bind fun discovered => ((validateDiscovered twoHost pushingSettings "" discovered).run ⟨false, []⟩).1.toOption

def twoEnd : Option PhaseResult := twoDelegated.bind fun result => match result with
  | .delegateBatch repos _ => ((resumePhase twoHost pushingSettings "" repos
      [.success "cccccccccccccccc" [], .error "dddddddddddddddd" "no answer"]).run ⟨false, []⟩).1.toOption
  | _ => none

def PhaseResult.statuses : PhaseResult → List RepoStatus
  | delegateBatch repos _ | done repos | fail repos => repos.map (·.2.status)

theorem ran_of_toOption {σ ε α : Type} {x : Action σ ε α} {w : σ} {a : α} (h : (x.run w).1.toOption = some a) :
    ∃ w', x.run w = (.ok a, w') := by
  cases hr : x.run w with
  | mk r w' =>
    rw [hr] at h
    cases r with
    | ok b =>
      cases h
      exact ⟨w', rfl⟩
    | error e => cases h

/-- Paths of one depth stay in order. -/
theorem runDiscovery_level {σ : Type} {host : Host σ} {realPath : String → String} {settings : Settings}
    {repoPaths : List String} {found : List RepositoryInfo} {w w' : σ}
    (h : (discoverRepositories host realPath settings [] repoPaths).run w = (.ok found, w'))
    (hlevel : found.Pairwise fun a b => pathDepth b.path ≤ pathDepth a.path) :
    (runDiscovery host realPath settings repoPaths).run w = (.ok found, w') := by
  have hsorted : found.mergeSort (fun a b => pathDepth b.path ≤ pathDepth a.path) = found :=
    List.mergeSort_of_pairwise (hlevel.imp fun h => decide_eq_true h)
  rw [runDiscovery, Action.run_bind, h]
  show (Except.ok (found.mergeSort fun a b => pathDepth b.path ≤ pathDepth a.path), w') = _
  rw [hsorted]

/-- The clone is pushed and the planner fails the dirty one: both are delegated, and the run fails. -/
theorem phases_sound_two : ∃ (repos : Repos) (jobIds : List String) (final : PhaseResult),
    jobIds = ["cccccccccccccccc", "dddddddddddddddd"] ∧ (PhaseResult.delegateBatch repos jobIds).Sound ∧
    final.statuses = [.SUCCESS, .FAILED] ∧ final.Sound := by
  have hend : twoEnd.any (fun final => final.statuses == [.SUCCESS, .FAILED]) = true := by decide +kernel
  have hjobs : twoDelegated.any (fun result => match result with
      | .delegateBatch _ jobIds => jobIds == ["cccccccccccccccc", "dddddddddddddddd"]
      | _ => false) = true := by decide +kernel
  have hfound : twoStart.any (fun discovered => decide (discovered.map (·.id)).Nodup &&
      decide (discovered.Pairwise fun a b => pathDepth b.path ≤ pathDepth a.path)) = true := by decide +kernel
  obtain ⟨final, hfinal, hstatuses⟩ := exists_of_any hend
  obtain ⟨result, hresult, hids⟩ := exists_of_any hjobs
  obtain ⟨discovered, hdiscovered, hnodup⟩ := exists_of_any hfound
  rw [Bool.and_eq_true, decide_eq_true_eq, decide_eq_true_eq] at hnodup
  rw [twoEnd, hresult, Option.bind_some] at hfinal
  rw [twoDelegated, hdiscovered, Option.bind_some] at hresult
  cases result with
  | done repos => cases hids
  | fail repos => cases hids
  | delegateBatch repos jobIds =>
    obtain ⟨w, hdiscover⟩ := ran_of_toOption hdiscovered
    obtain ⟨world, hstart⟩ := ran_of_toOption hresult
    obtain ⟨world', hresume⟩ := ran_of_toOption hfinal
    have hids := beq_iff_eq.mp hids
    have hfirst : Run (phaseMachine twoHost pushingSettings "" id) _ _ :=
      (Run.start rfl).snoc (.start (runDiscovery_level hdiscover hnodup.2) hnodup.1 hstart)
    have hsecond := hfirst.snoc (.resume (by rw [hids]; exact .refl _) hresume)
    exact ⟨repos, jobIds, final, hids, phases_sound twoHost_printsIds hfirst _ rfl, beq_iff_eq.mp hstatuses,
      phases_sound twoHost_printsIds hsecond _ rfl⟩

end GitCommitsPush.Publication
