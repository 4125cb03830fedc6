/-
  GitCommitsPush.Publication.Runs — the runs of the two phases.

  A run goes through phase 1 once, then through phase 2 as long as retries are queued.
  Anything may change between two steps. A result is handled in up to three steps: the
  attempt and, when it asks for a retry, the files staged again and the job queued. The
  results of a batch come in any order, one for each id. A phase that throws loses what
  it did to the state: it may run again from where it started.

  `runCommitAndPushPhase_steps` shows that the code's loop is a run of these steps.
-/

import GitCommitsPush.Lib.Runs
import GitCommitsPush.Publication.Phases

namespace GitCommitsPush.Publication

open GitCommitsPush.Lib.Effect
open GitCommitsPush.Lib.Runs
open GitCommitsPush.Lib.Trace (lifted lifted_bind)

/-! ## A retry in two steps -/

/-- What a retry holds once its files are staged again. -/
structure Restaged where
  pendingFiles : Option (List String)
  remainingDiff : String
  /-- Git staged them. -/
  staged : Bool

/-- The retry stages its files again; a repair of messages does not. -/
def RetryRequest.restages (request : RetryRequest) : Bool :=
  request.repoState.diffHash.getD "" != "" && !isMessageRepair request.errors request.failedPlans

inductive Retry where
  | asked (request : RetryRequest)
  | restaged (request : RetryRequest) (found : Restaged)

def Retry.request : Retry → RetryRequest
  | asked request | restaged request _ => request

/-- Nothing is left to stage. -/
def Retry.ready : Retry → Bool
  | asked request => !request.restages
  | restaged _ _ => true

section Retries

variable {σ : Type} (host : Host σ)

def restage (request : RetryRequest) : Action σ String Restaged := do
  let pendingFiles := filterPending request.repoState request.options
  let remainingDiff ← reconstructRemainingDiff host request.repoState.repository pendingFiles
  match ← (host.execSync request.repoState.repository (stageCommand pendingFiles)).outcome with
  | .ok _ => return ⟨pendingFiles, remainingDiff, true⟩
  | .error _ => return ⟨pendingFiles, remainingDiff, false⟩

/-- The diff a retry sends: what is staged, or what was reconstructed when Git fails. -/
def readRestaged (repository : String) (found : Restaged) : Action σ String String :=
  if found.staged = true then
    (host.execSync repository "git diff --cached").attempt fun _ => pure found.remainingDiff
  else pure found.remainingDiff

variable (settings : Settings) (systemPrompt : String)

def finishRetry (repoId : String) : Retry → Action σ String (RepoState × Option RetryJob)
  | .asked request => requeue host settings systemPrompt repoId request
  | .restaged request found => do
    let actualDiff ← readRestaged host request.repoState.repository found
    return answerRetry request (queueReplan host repoId request.repoState request.errors request.options settings
      systemPrompt request.failedPlans found.pendingFiles actualDiff)

/-- The two steps are the code's `queueRetry`. -/
theorem requeue_eq (repoId : String) {request : RetryRequest} (h : request.restages = true) :
    requeue host settings systemPrompt repoId request = (do
      let found ← restage host request
      finishRetry host settings systemPrompt repoId (.restaged request found)) := by
  simp only [RetryRequest.restages, Bool.and_eq_true, bne_iff_ne, Bool.not_eq_true'] at h
  funext w
  show (requeue host settings systemPrompt repoId request).run w = Action.run _ w
  unfold requeue queueRetry restage finishRetry restageDiff readRestaged
  rw [if_neg h.1, if_neg (by rw [h.2]; decide)]
  simp only [Action.run_bind]
  cases (reconstructRemainingDiff host request.repoState.repository
    (filterPending request.repoState request.options)).run w with
  | mk r w =>
    cases r with
    | error e => rfl
    | ok remainingDiff =>
      simp only [Action.run_bind, Action.run_attempt, Action.run_outcome]
      cases (host.execSync request.repoState.repository
        (stageCommand (filterPending request.repoState request.options))).run w with
      | mk r w =>
        cases r with
        | error e =>
          rfl
        | ok _ =>
          simp only [Action.run_pure, if_true, Action.run_attempt]
          cases (host.execSync request.repoState.repository "git diff --cached").run w with
          | mk r w => cases r <;> rfl

end Retries

/-! ## States -/

/-- The repositories, and the ids whose result is still to come. -/
structure Batch where
  repos : Repos
  awaited : List String

structure RunState (σ : Type) where
  world : Traced σ
  /-- What the phase under way started from. -/
  checkpoint : Batch
  batch : Batch
  /-- The retry the last result asked for, by id. -/
  retry : Option (String × Retry)
  /-- The jobs queued by the phase under way. -/
  retryJobs : List RetryJob

namespace RunState

variable {σ : Type}

def phaseStart (world : Traced σ) (batch : Batch) : RunState σ := ⟨world, batch, batch, none, []⟩

def initial (world : σ) : RunState σ := phaseStart ⟨world, []⟩ ⟨[], []⟩

/-- The phase threw. -/
def restart (s : RunState σ) (world : Traced σ) : RunState σ := phaseStart world s.checkpoint

/-- The result of `id` has come. -/
def answered (s : RunState σ) (id : String) : RunState σ :=
  { s with batch := { s.batch with awaited := s.batch.awaited.filter (· != id) } }

def update (s : RunState σ) (world : Traced σ) (id : String) (repoState : RepoState) (job : Option RetryJob) : RunState σ :=
  { s with
    world
    batch := { s.batch with repos := s.batch.repos.set id repoState }
    retry := none
    retryJobs := s.retryJobs ++ job.toList }

def attempted (s : RunState σ) (world : Traced σ) (id : String) : Attempt → RunState σ
  | .settled repoState job => (s.answered id).update world id repoState job
  | .retry request => { s.answered id with world, retry := some (id, .asked request) }

end RunState

/-! ## Steps -/

inductive Move (σ : Type) where
  /-- Anything outside the run changes. -/
  | edit (world : σ)
  | discover (discovered : List RepositoryInfo)
  | handle (result : CommitJobResult)
  | restage
  | queue
  /-- Phase 2 ends; the jobs it queued are delegated. -/
  | delegate

section Machine

variable {σ : Type} (host : Host σ) (settings : Settings) (systemPrompt : String)

inductive RunStep : RunState σ → Move σ → RunState σ → Prop
  | edit {s : RunState σ} (world : σ) : RunStep s (.edit world) { s with world := { s.world with world } }
  | discover {s : RunState σ} {discovered : List RepositoryInfo} {repos : Repos} {jobs : List DelegatedJob} {world : Traced σ}
      (hfirst : s.batch = ⟨[], []⟩)
      (hrun : (runDiscoveryAndValidationPhase host settings systemPrompt discovered []).run s.world = (.ok (repos, jobs), world)) :
      RunStep s (.discover discovered) (.phaseStart world ⟨repos, jobs.map (·.id)⟩)
  | discoverThrow {s : RunState σ} {discovered : List RepositoryInfo} {message : String} {world : Traced σ}
      (hfirst : s.batch = ⟨[], []⟩)
      (hrun : (runDiscoveryAndValidationPhase host settings systemPrompt discovered []).run s.world = (.error message, world)) :
      RunStep s (.discover discovered) (s.restart world)
  | handle {s : RunState σ} {result : CommitJobResult} {repoState : RepoState} {attempt : Attempt} {world : Traced σ}
      (hidle : s.retry = none) (hid : result.id ∈ s.batch.awaited) (hget : s.batch.repos.get result.id = some repoState)
      (hrun : (attemptResult host settings systemPrompt result.id repoState result).run s.world = (.ok attempt, world)) :
      RunStep s (.handle result) (s.attempted world result.id attempt)
  | handleThrow {s : RunState σ} {result : CommitJobResult} {repoState : RepoState} {message : String} {world : Traced σ}
      (hidle : s.retry = none) (hid : result.id ∈ s.batch.awaited) (hget : s.batch.repos.get result.id = some repoState)
      (hrun : (attemptResult host settings systemPrompt result.id repoState result).run s.world = (.error message, world)) :
      RunStep s (.handle result) (s.restart world)
  | handleUnknown {s : RunState σ} {result : CommitJobResult} (hidle : s.retry = none) (hid : result.id ∈ s.batch.awaited)
      (hget : s.batch.repos.get result.id = none) : RunStep s (.handle result) (s.answered result.id)
  | restage {s : RunState σ} {id : String} {request : RetryRequest} {found : Restaged} {world : Traced σ}
      (hretry : s.retry = some (id, .asked request)) (hrestages : request.restages = true)
      (hrun : (lifted (restage host request)).run s.world = (.ok found, world)) :
      RunStep s .restage { s with world, retry := some (id, .restaged request found) }
  | restageThrow {s : RunState σ} {id : String} {request : RetryRequest} {message : String} {world : Traced σ}
      (hretry : s.retry = some (id, .asked request)) (hrestages : request.restages = true)
      (hrun : (lifted (restage host request)).run s.world = (.error message, world)) :
      RunStep s .restage (s.restart world)
  | queue {s : RunState σ} {id : String} {retry : Retry} {repoState : RepoState} {job : Option RetryJob} {world : Traced σ}
      (hretry : s.retry = some (id, retry)) (hready : retry.ready = true)
      (hrun : (lifted (finishRetry host settings systemPrompt id retry)).run s.world = (.ok (repoState, job), world)) :
      RunStep s .queue (s.update world id repoState job)
  | queueThrow {s : RunState σ} {id : String} {retry : Retry} {message : String} {world : Traced σ}
      (hretry : s.retry = some (id, retry)) (hready : retry.ready = true)
      (hrun : (lifted (finishRetry host settings systemPrompt id retry)).run s.world = (.error message, world)) :
      RunStep s .queue (s.restart world)
  | delegate {s : RunState σ} (hidle : s.retry = none) (hdone : s.batch.awaited = []) :
      RunStep s .delegate (.phaseStart s.world ⟨s.batch.repos, s.retryJobs.map (·.id)⟩)

/-- The runs of the two phases over one host. -/
def runMachine : Machine (RunState σ) (Move σ) where
  init s := ∃ world, s = .initial world
  step := RunStep host settings systemPrompt

/-- A move carried out, where it is one. -/
def perform (s : RunState σ) : Move σ → Option (RunState σ)
  | .edit world => some { s with world := { s.world with world } }
  | .discover discovered =>
    if s.batch.repos.isEmpty && s.batch.awaited.isEmpty then
      match (runDiscoveryAndValidationPhase host settings systemPrompt discovered []).run s.world with
      | (.ok (repos, jobs), world) => some (.phaseStart world ⟨repos, jobs.map (·.id)⟩)
      | (.error _, world) => some (s.restart world)
    else none
  | .handle result =>
    if s.retry.isNone && s.batch.awaited.contains result.id then
      match s.batch.repos.get result.id with
      | none => some (s.answered result.id)
      | some repoState => match (attemptResult host settings systemPrompt result.id repoState result).run s.world with
        | (.ok attempt, world) => some (s.attempted world result.id attempt)
        | (.error _, world) => some (s.restart world)
    else none
  | .restage => match s.retry with
    | some (id, .asked request) =>
      if request.restages then
        match (lifted (restage host request)).run s.world with
        | (.ok found, world) => some { s with world, retry := some (id, .restaged request found) }
        | (.error _, world) => some (s.restart world)
      else none
    | _ => none
  | .queue => match s.retry with
    | some (id, retry) =>
      if retry.ready then
        match (lifted (finishRetry host settings systemPrompt id retry)).run s.world with
        | (.ok (repoState, job), world) => some (s.update world id repoState job)
        | (.error _, world) => some (s.restart world)
      else none
    | none => none
  | .delegate =>
    if s.retry.isNone && s.batch.awaited.isEmpty then some (.phaseStart s.world ⟨s.batch.repos, s.retryJobs.map (·.id)⟩)
    else none

theorem perform_step {s t : RunState σ} {move : Move σ} (h : perform host settings systemPrompt s move = some t) :
    RunStep host settings systemPrompt s move t := by
  cases move with
  | edit world =>
    cases h
    exact .edit world
  | discover discovered =>
    simp only [perform] at h
    split at h
    · rename_i hfirst
      rw [Bool.and_eq_true, List.isEmpty_iff, List.isEmpty_iff] at hfirst
      have hbatch : s.batch = ⟨[], []⟩ := by
        rw [← hfirst.1, ← hfirst.2]
      split at h <;> cases h
      · exact .discover hbatch (by assumption)
      · exact .discoverThrow hbatch (by assumption)
    · cases h
  | handle result =>
    simp only [perform] at h
    split at h
    · rename_i hmove
      rw [Bool.and_eq_true, Option.isNone_iff_eq_none, List.contains_iff_mem] at hmove
      split at h
      · cases h
        exact .handleUnknown hmove.1 hmove.2 (by assumption)
      · split at h <;> cases h
        · exact .handle hmove.1 hmove.2 (by assumption) (by assumption)
        · exact .handleThrow hmove.1 hmove.2 (by assumption) (by assumption)
    · cases h
  | restage =>
    simp only [perform] at h
    split at h
    · split at h
      · split at h <;> cases h
        · exact .restage (by assumption) (by assumption) (by assumption)
        · exact .restageThrow (by assumption) (by assumption) (by assumption)
      · cases h
    · cases h
  | queue =>
    simp only [perform] at h
    split at h
    · split at h
      · split at h <;> cases h
        · exact .queue (by assumption) (by assumption) (by assumption)
        · exact .queueThrow (by assumption) (by assumption) (by assumption)
      · cases h
    · cases h
  | delegate =>
    simp only [perform] at h
    split at h
    · rename_i hmove
      rw [Bool.and_eq_true, Option.isNone_iff_eq_none, List.isEmpty_iff] at hmove
      cases h
      exact .delegate hmove.1 hmove.2
    · cases h

/-- The moves in turn, while each is one and is allowed. -/
def performAll (allowed : RunState σ → Move σ → Bool) (s : RunState σ) : List (Move σ) → Option (RunState σ)
  | [] => some s
  | move :: moves =>
    if allowed s move then (perform host settings systemPrompt s move).bind fun t => performAll allowed t moves else none

theorem performAll_steps {allowed : RunState σ → Move σ → Bool} {cond : RunState σ → Move σ → Prop}
    (hallowed : ∀ s move, allowed s move = true → cond s move) {s t : RunState σ} {moves : List (Move σ)}
    (h : performAll host settings systemPrompt allowed s moves = some t) :
    Steps ((runMachine host settings systemPrompt).guarded cond) s moves t := by
  induction moves generalizing s with
  | nil =>
    cases h
    exact .nil
  | cons move moves ih =>
    unfold performAll at h
    split at h
    · obtain ⟨u, hperform, hrest⟩ := Option.bind_eq_some_iff.mp h
      have hfirst : Steps ((runMachine host settings systemPrompt).guarded cond) s [move] u :=
        Steps.single ⟨hallowed s move (by assumption), perform_step host settings systemPrompt hperform⟩
      exact hfirst.trans (ih hrest)
    · cases h

/-! ## The loop of phase 2 -/

/-- The state after one result. -/
def RunState.afterResult (s : RunState σ) (world : Traced σ) (id : String) :
    Except String (RepoState × Option RetryJob) → RunState σ
  | .ok (repoState, job) => (s.answered id).update world id repoState job
  | .error _ => s.restart world

/-- One result, to its end. -/
theorem handleResult_steps {s : RunState σ} {result : CommitJobResult} {repoState : RepoState} (hidle : s.retry = none)
    (hid : result.id ∈ s.batch.awaited) (hget : s.batch.repos.get result.id = some repoState)
    {r : Except String (RepoState × Option RetryJob)} {world : Traced σ}
    (hrun : (handleResult host settings systemPrompt result.id repoState result).run s.world = (r, world)) :
    ∃ moves, Steps (runMachine host settings systemPrompt) s moves (s.afterResult world result.id r) := by
  unfold handleResult at hrun
  rw [Action.run_bind] at hrun
  cases hattempt : (attemptResult host settings systemPrompt result.id repoState result).run s.world with
  | mk ra world₁ =>
    rw [hattempt] at hrun
    cases ra with
    | error message =>
      cases hrun
      exact ⟨_, Steps.single (.handleThrow hidle hid hget hattempt)⟩
    | ok attempt =>
      have hfirst := Steps.single (M := runMachine host settings systemPrompt) (.handle hidle hid hget hattempt)
      cases attempt with
      | settled repoState job =>
        cases hrun
        exact ⟨_, hfirst⟩
      | retry request =>
        suffices ∃ moves, Steps (runMachine host settings systemPrompt)
            (s.attempted world₁ result.id (.retry request)) moves (s.afterResult world result.id r) by
          obtain ⟨moves, h⟩ := this
          exact ⟨_, hfirst.trans h⟩
        by_cases hrestages : request.restages = true
        · simp only [requeue_eq host settings systemPrompt result.id hrestages, lifted_bind, Action.run_bind] at hrun
          cases hrestage : (lifted (restage host request)).run world₁ with
          | mk rr world₂ =>
            rw [hrestage] at hrun
            cases rr with
            | error message =>
              cases hrun
              exact ⟨_, Steps.single (.restageThrow rfl hrestages hrestage)⟩
            | ok found =>
              have hsecond := Steps.single (M := runMachine host settings systemPrompt)
                (s := s.attempted world₁ result.id (.retry request)) (.restage rfl hrestages hrestage)
              cases r with
              | error message => exact ⟨_, hsecond.trans (Steps.single (.queueThrow rfl rfl hrun))⟩
              | ok answer => exact ⟨_, hsecond.trans (Steps.single (.queue rfl rfl hrun))⟩
        · have hready : (Retry.asked request).ready = true := by
            rw [Retry.ready, eq_false_of_ne_true hrestages]
            rfl
          cases r with
          | error message => exact ⟨_, Steps.single (.queueThrow rfl hready hrun)⟩
          | ok answer => exact ⟨_, Steps.single (.queue rfl hready hrun)⟩

/-- The state after the results of `ids`. -/
def RunState.afterResults (s : RunState σ) (world : Traced σ) (ids : List String) :
    Except String (Repos × List RetryJob) → RunState σ
  | .ok (repos, retryJobs) =>
    { s with world, batch := ⟨repos, s.batch.awaited.filter fun id => !ids.contains id⟩, retryJobs }
  | .error _ => s.restart world

/-- The code's loop over a batch of results, one for each id, is a run. -/
theorem runCommitAndPushPhase_steps (results : List CommitJobResult) {s : RunState σ} (hidle : s.retry = none)
    (hids : ∀ result ∈ results, result.id ∈ s.batch.awaited) (hnodup : (results.map (·.id)).Nodup)
    {r : Except String (Repos × List RetryJob)} {world : Traced σ}
    (hrun : (runCommitAndPushPhase host settings systemPrompt s.batch.repos s.retryJobs results).run s.world = (r, world)) :
    ∃ moves, Steps (runMachine host settings systemPrompt) s moves (s.afterResults world (results.map (·.id)) r) := by
  induction results generalizing s with
  | nil =>
    cases hrun
    refine ⟨[], ?_⟩
    have hawaited : s.batch.awaited.filter (fun id => !([] : List String).contains id) = s.batch.awaited :=
      List.filter_eq_self.mpr fun _ _ => rfl
    simp only [RunState.afterResults, List.map_nil, hawaited]
    exact .nil
  | cons result results ih =>
    have hid := hids result List.mem_cons_self
    rw [List.map_cons, List.nodup_cons] at hnodup
    have hrest : ∀ other ∈ results, other.id ∈ (s.answered result.id).batch.awaited := by
      intro other hother
      refine List.mem_filter.mpr ⟨hids other (List.mem_cons_of_mem _ hother), ?_⟩
      rw [bne_iff_ne]
      intro he
      exact hnodup.1 (he ▸ List.mem_map_of_mem hother)
    have hfilter : ∀ awaited : List String, (awaited.filter (· != result.id)).filter
        (fun id => !(results.map (·.id)).contains id) =
        awaited.filter fun id => !((result :: results).map (·.id)).contains id := by
      intro awaited
      rw [List.filter_filter]
      congr 1
      funext id
      simp only [List.map_cons, List.contains_cons, Bool.not_or, bne, Bool.and_comm]
    unfold runCommitAndPushPhase at hrun
    cases hget : s.batch.repos.get result.id with
    | none =>
      simp only [hget] at hrun
      obtain ⟨moves, h⟩ := ih (s := s.answered result.id) hidle hrest hnodup.2 hrun
      have hend : (s.answered result.id).afterResults world (results.map (·.id)) r =
          s.afterResults world ((result :: results).map (·.id)) r := by
        cases r with
        | error message => rfl
        | ok answer => simp only [RunState.afterResults, RunState.answered, hfilter]
      rw [hend] at h
      have hfirst := Steps.single (M := runMachine host settings systemPrompt) (RunStep.handleUnknown hidle hid hget)
      exact ⟨_, hfirst.trans h⟩
    | some repoState =>
      simp only [hget, Action.run_bind] at hrun
      cases hresult : (handleResult host settings systemPrompt result.id repoState result).run s.world with
      | mk rr world₁ =>
        obtain ⟨first, hfirst⟩ := handleResult_steps host settings systemPrompt hidle hid hget hresult
        rw [hresult] at hrun
        cases rr with
        | error message =>
          cases hrun
          exact ⟨first, hfirst⟩
        | ok answer =>
          obtain ⟨repoState', job⟩ := answer
          obtain ⟨moves, h⟩ := ih (s := (s.answered result.id).update world₁ result.id repoState' job) rfl hrest hnodup.2 hrun
          have hend : ((s.answered result.id).update world₁ result.id repoState' job).afterResults world
              (results.map (·.id)) r = s.afterResults world ((result :: results).map (·.id)) r := by
            cases r with
            | error message => rfl
            | ok answer => simp only [RunState.afterResults, RunState.answered, RunState.update, hfilter, hidle]
          rw [hend] at h
          exact ⟨_, hfirst.trans h⟩

end Machine

end GitCommitsPush.Publication
