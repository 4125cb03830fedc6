/-
  GitCommitsPush.Publication.RunInvariant — what holds of every run of the phases.

  `waiting_run`: a repository with a result or a retry to come has not succeeded.
  `RunRule.run`: a property of the repositories and the trace holds after every run when
  validation establishes it and no attempt and no retry breaks it.
-/

import GitCommitsPush.Publication.ResultTrace
import GitCommitsPush.Publication.Runs

namespace GitCommitsPush.Publication

open GitCommitsPush.Lib.Effect
open GitCommitsPush.Lib.Runs
open GitCommitsPush.Lib.Trace (lifted lifted_trace Emits)

/-! ## All repositories -/

def Repos.All (repos : Repos) (p : RepoState → Prop) : Prop := ∀ id repoState, repos.get id = some repoState → p repoState

theorem Repos.All.mono {repos : Repos} {p q : RepoState → Prop} (h : repos.All p) (hpq : ∀ s, p s → q s) : repos.All q :=
  fun id repoState hget => hpq _ (h id repoState hget)

theorem Repos.All.set {repos : Repos} {p : RepoState → Prop} (h : repos.All p) (id : String) {repoState : RepoState}
    (hstate : p repoState) : (repos.set id repoState).All p := by
  intro other state hget
  rw [Repos.get_set] at hget
  split at hget
  · cases hget
    exact hstate
  · exact h other state hget

theorem Repos.All.markRunning {repos : Repos} {p : RepoState → Prop} (h : repos.All p) (ids : List String)
    (hp : ∀ s, p s → p { s with status := .RUNNING }) : (repos.markRunning ids).All p := by
  intro id state hget
  rw [Repos.get_markRunning] at hget
  obtain ⟨old, hold, rfl⟩ := Option.map_eq_some_iff.mp hget
  split
  · exact hp _ (h id old hold)
  · exact h id old hold

/-! ## Phase 1 -/

/-- The diff was scanned and has the hash. -/
def ScannedFirst {σ : Type} (host : Host σ) (repository : String) (r : Except ExecError ValidatedDiff) (events : List Event) :
    Prop :=
  (∀ e ∈ events, e.IsScan) ∧ ∀ validated, r = .ok validated →
    Event.scanned repository validated.diff ∈ events ∧ validated.diffHash = host.sha256 validated.diff

theorem processRepoValidationAndDiff_emits {σ : Type} (host : Host σ) (repository : String) (settings : Settings) :
    Emits (processRepoValidationAndDiff host repository settings) (ScannedFirst host repository) := by
  have herr : ∀ e, ScannedFirst host repository (.error e) [] :=
    fun e => ⟨(fun e he => by cases he), fun validated h => by cases h⟩
  have hstaged : Emits (stageAndScan host repository) (ScannedFirst host repository) := by
    unfold stageAndScan
    refine Emits.bind_lifted (fun _ => ?_) herr
    refine Emits.bind_lifted (fun _ => ?_) herr
    refine Emits.bind_lifted (fun diff => ?_) herr
    apply Emits.ite
    · intro _
      exact Emits.throw (herr _)
    intro _
    unfold validateDiffForSecrets
    simp only
    split
    · refine Emits.bind (Emits.throw (Q := fun r events => events = [] ∧ ∃ e, r = .error e) ⟨rfl, _, rfl⟩) ?_ ?_
      · intro a events h
        obtain ⟨-, e, he⟩ := h
        cases he
      · intro e events h
        rw [h.1]
        exact herr e
    · refine Emits.bind_note ?_
      refine Emits.pure ⟨?_, ?_⟩
      · intro e he
        rw [List.mem_singleton.mp he]
        exact True.intro
      · intro validated h
        cases h
        exact ⟨List.mem_cons_self, rfl⟩
  unfold processRepoValidationAndDiff
  apply Emits.ite
  · intro _
    exact Emits.bind_lifted (fun _ => hstaged) herr
  · intro _
    exact hstaged

/-- The diff with the hash on record was scanned for the repository. -/
def HashScanned {σ : Type} (host : Host σ) (trace : List Event) (repoState : RepoState) : Prop :=
  repoState.operation ≠ some .pushOnly → ∀ hash, repoState.diffHash = some hash →
    ∃ diff, Event.scanned repoState.repository diff ∈ trace ∧ host.sha256 diff = hash

/-- A validated repository has not succeeded, has no commits, and its diff was scanned. -/
theorem validateRepository_emits {σ : Type} (host : Host σ) (settings : Settings) (repo : RepositoryInfo) :
    Emits (validateRepository host settings repo) fun r events => (∀ e ∈ events, e.IsScan) ∧
      ∀ answer, r = .ok answer → answer.1.status ≠ .SUCCESS ∧ answer.1.recorded = [] ∧ HashScanned host events answer.1 := by
  unfold validateRepository
  cases repo.operation with
  | pushOnly =>
    cases repo.pushSnapshot with
    | none =>
      refine Emits.pure ⟨(fun e he => by cases he), ?_⟩
      intro answer h
      cases h
      exact ⟨(fun h => by cases h), rfl, fun h => absurd rfl h⟩
    | some snapshot =>
      refine Emits.pure ⟨(fun e he => by cases he), ?_⟩
      intro answer h
      cases h
      exact ⟨(fun h => by cases h), rfl, fun h => absurd rfl h⟩
  | commitAndPush =>
    refine Emits.bind_outcome (processRepoValidationAndDiff_emits host repo.path settings) fun r events h => ?_
    obtain ⟨hscans, hvalidated⟩ := h
    cases r with
    | ok validated =>
      obtain ⟨hscanned, hhash⟩ := hvalidated validated rfl
      refine Emits.pure ⟨by rwa [List.append_nil], ?_⟩
      intro answer h
      cases h
      refine ⟨(fun h => by cases h), rfl, fun _ hash hash' => ?_⟩
      cases hash'
      exact ⟨validated.diff, List.mem_append_left _ hscanned, hhash.symm⟩
    | error err =>
      refine Emits.pure ⟨by rwa [List.append_nil], ?_⟩
      intro answer h
      cases h
      exact ⟨(fun h => by cases h), rfl, fun _ hash hash' => by cases hash'⟩

section Discovery

variable {σ : Type} {host : Host σ} {settings : Settings} {P : List Event → RepoState → Prop} {T : List Event → Prop}

/-- What every validation keeps of the trace and gives its repository, phase 1 does. -/
theorem validateRepositories_emits (hmono : ∀ trace more s, P trace s → P (trace ++ more) s)
    (hvalidate : ∀ repo, Emits (validateRepository host settings repo) fun r events => ∀ trace, T trace →
      T (trace ++ events) ∧ ∀ answer, r = .ok answer → P (trace ++ events) answer.1)
    (repos : List RepositoryInfo) (v : Validation) :
    Emits (validateRepositories host settings v repos) fun r events => ∀ trace, T trace → v.nextRepos.All (P trace) →
      T (trace ++ events) ∧ ∀ v', r = .ok v' → v'.nextRepos.All (P (trace ++ events)) := by
  induction repos generalizing v with
  | nil =>
    refine Emits.pure ?_
    intro trace htrace hall
    rw [List.append_nil]
    exact ⟨htrace, fun v' h => by cases h; exact hall⟩
  | cons repo repos ih =>
    unfold validateRepositories
    refine Emits.bind (hvalidate repo) ?_ ?_
    · intro answer events h
      obtain ⟨repoState, validated⟩ := answer
      refine (ih _).conseq ?_
      intro r more hr trace htrace hall
      obtain ⟨hevents, hstate⟩ := h trace htrace
      rw [← List.append_assoc]
      exact hr _ hevents ((hall.mono fun s => hmono trace events s).set repo.id (hstate _ rfl))
    · intro e events h trace htrace _
      exact ⟨(h trace htrace).1, fun v' hv => by cases hv⟩

theorem runDiscoveryAndValidationPhase_emits (systemPrompt : String)
    (hmono : ∀ trace more s, P trace s → P (trace ++ more) s)
    (hrunning : ∀ trace s, P trace s → P trace { s with status := .RUNNING })
    (hvalidate : ∀ repo, Emits (validateRepository host settings repo) fun r events => ∀ trace, T trace →
      T (trace ++ events) ∧ ∀ answer, r = .ok answer → P (trace ++ events) answer.1)
    (discovered : List RepositoryInfo) :
    Emits (runDiscoveryAndValidationPhase host settings systemPrompt discovered []) fun r events => ∀ trace, T trace →
      T (trace ++ events) ∧ ∀ answer, r = .ok answer → answer.1.All (P (trace ++ events)) := by
  have hnil : ∀ trace, Repos.All [] (P trace) := fun _ id s hget => by cases hget
  unfold runDiscoveryAndValidationPhase
  refine Emits.bind (validateRepositories_emits hmono hvalidate discovered _) ?_ ?_
  · intro v events h
    refine Emits.bind_lifted (fun jobs => ?_) fun e trace htrace => ?_
    · refine Emits.pure ?_
      intro trace htrace
      obtain ⟨hevents, hall⟩ := h trace htrace (hnil trace)
      rw [List.append_nil]
      refine ⟨hevents, fun answer ha => ?_⟩
      cases ha
      exact (hall v rfl).markRunning _ (hrunning _)
    · rw [List.append_nil]
      exact ⟨(h trace htrace (hnil trace)).1, fun answer ha => by cases ha⟩
  · intro e events h trace htrace
    exact ⟨(h trace htrace (hnil trace)).1, fun answer ha => by cases ha⟩

end Discovery

/-! ## Retries -/

/-- The end of a retry: a job under the repository's id, or failure. -/
structure Finished (repoId : String) (request : RetryRequest) (repoState : RepoState) (job : Option RetryJob) : Prop where
  books : repoState.books = request.repoState.books
  queued : ∀ queued, job = some queued → queued.id = repoId ∧ repoState.status = request.repoState.status
  failed : job = none → repoState.status = .FAILED

theorem answerRetry_finished {repoId : String} {request : RetryRequest} {result : QueueRetryResult}
    (h : Requeues repoId request.repoState result) :
    Finished repoId request (answerRetry request result).1 (answerRetry request result).2 := by
  cases result with
  | queued state job => exact ⟨h.books, fun queued hq => by cases hq; exact ⟨h.job job rfl, h.status⟩, fun h => by cases h⟩
  | loopDetected state =>
    have hbooks : (loopState request.loop state).books = state.books ∧ (loopState request.loop state).status = .FAILED := by
      cases request.loop <;> exact ⟨rfl, rfl⟩
    exact ⟨hbooks.1.trans h.books, (fun queued hq => by cases hq), fun _ => hbooks.2⟩

section Finish

variable {σ : Type} (host : Host σ) (settings : Settings) (systemPrompt repoId : String)

/-- A retry that is ready finishes so; the hash is kept, or is of the diff found staged. -/
theorem finishRetry_finished {retry : Retry} (hready : retry.ready = true) {w : σ} {repoState : RepoState}
    {job : Option RetryJob}
    (hrun : ((finishRetry host settings systemPrompt repoId retry).run w).1 = .ok (repoState, job)) :
    Finished repoId retry.request repoState job ∧
      (repoState.diffHash = retry.request.repoState.diffHash ∨
        ∃ request found actualDiff, retry = .restaged request found ∧
          ((readRestaged host request.repoState.repository found).run w).1 = .ok actualDiff ∧
          repoState.diffHash = some (host.sha256 actualDiff)) := by
  have hloop : ∀ (request : RetryRequest) (result : QueueRetryResult),
      (answerRetry request result).1.diffHash = result.repoState.diffHash := by
    intro request result
    cases result with
    | queued state job => rfl
    | loopDetected state => cases hl : request.loop <;> simp only [answerRetry, hl] <;> rfl
  cases retry with
  | asked request =>
    simp only [finishRetry, requeue, Action.run_bind] at hrun
    cases hq : (queueRetry host repoId request.repoState request.errors request.options settings systemPrompt
        request.failedPlans).run w with
    | mk r w₁ =>
      rw [hq] at hrun
      cases r with
      | error message => cases hrun
      | ok result =>
        simp only [Action.run_pure, Except.ok.injEq] at hrun
        have hrepair : isMessageRepair request.errors request.failedPlans = true := by
          by_cases hhash : request.repoState.diffHash.getD "" = ""
          · unfold queueRetry at hq
            rw [if_pos hhash] at hq
            cases hq
          · simpa [Retry.ready, RetryRequest.restages, hhash] using hready
        obtain ⟨hrequeues, hhash⟩ := queueRetry_repair hrepair w result (by rw [hq])
        have hfinished := answerRetry_finished hrequeues
        rw [hrun] at hfinished
        refine ⟨hfinished, .inl ?_⟩
        have h := hloop request result
        rw [hrun] at h
        exact h.trans hhash
  | restaged request found =>
    simp only [finishRetry, Action.run_bind] at hrun
    cases hread : (readRestaged host request.repoState.repository found).run w with
    | mk r w₁ =>
      rw [hread] at hrun
      cases r with
      | error message => cases hrun
      | ok actualDiff =>
        simp only [Action.run_pure, Except.ok.injEq] at hrun
        generalize hresult : queueReplan host repoId request.repoState request.errors request.options settings systemPrompt
          request.failedPlans found.pendingFiles actualDiff = result at hrun
        obtain ⟨hrequeues, hhash⟩ := queueReplan_requeues hresult
        have hfinished := answerRetry_finished hrequeues
        rw [hrun] at hfinished
        refine ⟨hfinished, ?_⟩
        rw [← hloop request, hrun] at hhash
        exact hhash.imp_right fun h => ⟨request, found, actualDiff, rfl, by rw [hread], h⟩

end Finish

/-! ## Waiting repositories -/

/-- A commit-and-push repository that has not succeeded. -/
def Open (repoState : RepoState) : Prop := repoState.operation ≠ some .pushOnly → repoState.status ≠ .SUCCESS

def Repos.Waits (repos : Repos) (id : String) : Prop := ∀ repoState, repos.get id = some repoState → Open repoState

theorem Repos.Waits.set {repos : Repos} {id other : String} {repoState : RepoState} (h : repos.Waits other)
    (hstate : id = other → Open repoState) : (repos.set id repoState).Waits other := by
  intro state hget
  rw [Repos.get_set] at hget
  split at hget
  · cases hget
    exact hstate (by assumption)
  · exact h state hget

/-- Nothing is to come for a repository that has succeeded, and one thing at most for any. -/
structure Waiting {σ : Type} (s : RunState σ) : Prop where
  checkpoint : ∀ id ∈ s.checkpoint.awaited, s.checkpoint.repos.Waits id
  awaited : ∀ id ∈ s.batch.awaited, s.batch.repos.Waits id
  queued : ∀ job ∈ s.retryJobs, s.batch.repos.Waits job.id
  apart : ∀ job ∈ s.retryJobs, job.id ∉ s.batch.awaited
  retry : ∀ id retry, s.retry = some (id, retry) →
    id ∉ s.batch.awaited ∧ retry.request.repoState.operation ≠ some .pushOnly ∧ Open retry.request.repoState

namespace Waiting

variable {σ : Type} {s : RunState σ}

theorem phaseStart {world : Traced σ} {batch : Batch} (h : ∀ id ∈ batch.awaited, batch.repos.Waits id) :
    Waiting (.phaseStart world batch) where
  checkpoint := h
  awaited := h
  queued := fun job hj => by cases hj
  apart := fun job hj => by cases hj
  retry := fun id retry hr => by cases hr

theorem answered (h : Waiting s) (id : String) : Waiting (s.answered id) where
  checkpoint := h.checkpoint
  awaited := fun other hother => h.awaited other (List.mem_filter.mp hother).1
  queued := h.queued
  apart := fun job hj hother => h.apart job hj (List.mem_filter.mp hother).1
  retry := fun id retry hr => by
    obtain ⟨hid, hretry⟩ := h.retry id retry hr
    exact ⟨fun hother => hid (List.mem_filter.mp hother).1, hretry⟩

/-- A repository nothing else is to come for moves on. -/
theorem update (h : Waiting s) {world : Traced σ} {id : String} {repoState : RepoState} {job : Option RetryJob}
    (hid : id ∉ s.batch.awaited) (hjobs : ∀ queued ∈ s.retryJobs, queued.id = id → Open repoState)
    (hjob : ∀ queued, job = some queued → queued.id = id ∧ Open repoState) :
    Waiting (s.update world id repoState job) where
  checkpoint := h.checkpoint
  awaited := fun other hother => (h.awaited other hother).set fun he => absurd (he ▸ hother) hid
  queued := by
    intro queued hqueued
    rcases List.mem_append.mp hqueued with hqueued | hqueued
    · exact (h.queued queued hqueued).set fun he => hjobs queued hqueued he.symm
    · obtain ⟨hqid, hopen⟩ := hjob queued (Option.mem_toList.mp hqueued)
      intro state hget
      rw [hqid, RunState.update, Repos.get_set, if_pos rfl] at hget
      cases hget
      exact hopen
  apart := by
    intro queued hqueued
    rcases List.mem_append.mp hqueued with hqueued | hqueued
    · exact h.apart queued hqueued
    · rw [(hjob queued (Option.mem_toList.mp hqueued)).1]
      exact hid
  retry := fun id retry hr => by cases hr

end Waiting

section Machine

variable {σ : Type} {host : Host σ} {settings : Settings} {systemPrompt : String}

theorem runDiscoveryAndValidationPhase_unsuccessful {discovered : List RepositoryInfo} {repos : Repos}
    {jobs : List DelegatedJob} {w w' : Traced σ}
    (hrun : (runDiscoveryAndValidationPhase host settings systemPrompt discovered []).run w = (.ok (repos, jobs), w')) :
    repos.All (·.status ≠ .SUCCESS) := by
  obtain ⟨events, -, hall⟩ := runDiscoveryAndValidationPhase_emits (P := fun _ s => s.status ≠ .SUCCESS) (T := fun _ => True)
    systemPrompt (fun _ _ _ h => h) (fun _ _ _ h => by cases h)
    (fun repo => (validateRepository_emits host settings repo).conseq fun r events hr trace _ =>
      ⟨True.intro, fun answer ha => (hr.2 answer ha).1⟩) discovered w
  exact (hall [] True.intro).2 _ (by rw [hrun])

theorem waiting_step {s t : RunState σ} {move : Move σ} (h : Waiting s)
    (hstep : RunStep host settings systemPrompt s move t) : Waiting t := by
  have hrestart : ∀ world, Waiting (s.restart world) := fun world => Waiting.phaseStart h.checkpoint
  cases hstep with
  | edit world => exact ⟨h.checkpoint, h.awaited, h.queued, h.apart, h.retry⟩
  | @discover discovered repos jobs world hfirst hrun =>
    refine Waiting.phaseStart ?_
    intro id _ state hget _
    exact runDiscoveryAndValidationPhase_unsuccessful hrun id state hget
  | discoverThrow hfirst hrun => exact hrestart _
  | @handle result repoState attempt world hidle hid hget hrun =>
    obtain ⟨events, -, hevents⟩ := attemptResult_emits host settings systemPrompt result.id repoState result s.world
    have heffect := hevents.2 attempt (by rw [hrun])
    have hopen := h.awaited result.id hid repoState hget
    have hgone : result.id ∉ (s.answered result.id).batch.awaited := by
      intro hmem
      exact absurd rfl (bne_iff_ne.mp (List.mem_filter.mp hmem).2)
    have hjobs : ∀ queued ∈ s.retryJobs, queued.id = result.id → False :=
      fun queued hq he => h.apart queued hq (he ▸ hid)
    unfold AttemptEffect at heffect
    split at heffect
    · obtain ⟨state, rfl, hstate⟩ := heffect
      exact (h.answered result.id).update hgone (fun queued hq he => (hjobs queued hq he).elim) fun queued hq => by cases hq
    · cases attempt with
      | settled state job =>
        refine (h.answered result.id).update hgone (fun queued hq he => (hjobs queued hq he).elim) ?_
        intro queued hq
        refine ⟨heffect.job queued hq, fun _ => ?_⟩
        have hstatus : state.status = repoState.status := heffect.continues (by cases hq; rfl)
        rw [hstatus]
        exact hopen (by assumption)
      | retry request =>
        refine ⟨h.checkpoint, (h.answered result.id).awaited, h.queued, (h.answered result.id).apart, ?_⟩
        intro id retry hr
        cases hr
        have hstatus : request.repoState.status = repoState.status := heffect.continues rfl
        have hoperation : request.repoState.operation = repoState.operation := heffect.operation
        refine ⟨hgone, by rw [show (Retry.asked request).request = request from rfl, hoperation]; assumption, fun _ => ?_⟩
        rw [show (Retry.asked request).request = request from rfl, hstatus]
        exact hopen (by assumption)
  | handleThrow hidle hid hget hrun => exact hrestart _
  | handleUnknown hidle hid hget => exact h.answered _
  | restage hretry hrestages hrun =>
    refine ⟨h.checkpoint, h.awaited, h.queued, h.apart, fun id retry hr => ?_⟩
    cases hr
    have hasked := h.retry _ _ hretry
    exact hasked
  | restageThrow hretry hrestages hrun => exact hrestart _
  | @queue id retry repoState job world hretry hready hrun =>
    obtain ⟨hid, hoperation, hopen⟩ := h.retry id retry hretry
    have hfinish : ((finishRetry host settings systemPrompt id retry).run s.world.world).1 = .ok (repoState, job) :=
      congrArg (·.1) hrun
    obtain ⟨hfinished, -⟩ := finishRetry_finished host settings systemPrompt id hready hfinish
    have hstate : Open repoState := by
      intro _
      cases job with
      | none => rw [hfinished.failed rfl]; decide
      | some queued => rw [(hfinished.queued queued rfl).2]; exact hopen hoperation
    exact h.update hid (fun _ _ _ => hstate) fun queued hq => ⟨(hfinished.queued queued hq).1, hstate⟩
  | queueThrow hretry hready hrun => exact hrestart _
  | delegate hidle hdone =>
    refine Waiting.phaseStart ?_
    intro id hid
    obtain ⟨job, hj, rfl⟩ := List.mem_map.mp hid
    exact h.queued job hj

theorem waiting_run {moves : List (Move σ)} {s : RunState σ} (h : Run (runMachine host settings systemPrompt) moves s) :
    Waiting s := by
  refine Run.invariant (I := Waiting) ?_ (fun t move u hi hstep => waiting_step hi hstep) h
  intro s hs
  obtain ⟨world, rfl⟩ := hs
  exact Waiting.phaseStart fun id hid => by cases hid

/-! ## The rule -/

/-- The steps allowed by `cond` keep `T` of the trace, and `P` of the trace and every
    repository. -/
structure RunRule (host : Host σ) (settings : Settings) (systemPrompt : String) (cond : RunState σ → Move σ → Prop)
    (T : List Event → Prop) (P : List Event → RepoState → Prop) : Prop where
  nil : T []
  mono : ∀ trace more s, P trace s → P (trace ++ more) s
  running : ∀ trace s, P trace s → P trace { s with status := .RUNNING }
  validate : ∀ repo, Emits (validateRepository host settings repo) fun r events => ∀ trace, T trace →
    T (trace ++ events) ∧ ∀ answer, r = .ok answer → P (trace ++ events) answer.1
  attempt : ∀ s result repoState, cond s (.handle result) → s.batch.repos.get result.id = some repoState → Open repoState →
    T s.world.trace → P s.world.trace repoState →
    ∀ r world, (attemptResult host settings systemPrompt result.id repoState result).run s.world = (r, world) →
      T world.trace ∧ ∀ attempt, r = .ok attempt → P world.trace attempt.repoState
  finish : ∀ s id retry, cond s .queue → s.retry = some (id, retry) → retry.ready = true →
    P s.world.trace retry.request.repoState →
    ∀ repoState job, ((finishRetry host settings systemPrompt id retry).run s.world.world).1 = .ok (repoState, job) →
      P s.world.trace repoState

/-- `T` and `P` in every part of a state. -/
structure Holds (T : List Event → Prop) (P : List Event → RepoState → Prop) (s : RunState σ) : Prop where
  trace : T s.world.trace
  checkpoint : s.checkpoint.repos.All (P s.world.trace)
  batch : s.batch.repos.All (P s.world.trace)
  retry : ∀ id retry, s.retry = some (id, retry) → P s.world.trace retry.request.repoState

namespace RunRule

variable {cond : RunState σ → Move σ → Prop} {T : List Event → Prop} {P : List Event → RepoState → Prop}

theorem restart (rule : RunRule host settings systemPrompt cond T P) {s : RunState σ} (h : Holds T P s) {world : Traced σ}
    {events : List Event} (htrace : world.trace = s.world.trace ++ events) (hT : T world.trace) :
    Holds T P (s.restart world) := by
  have hall : s.checkpoint.repos.All (P world.trace) := by
    rw [htrace]
    exact h.checkpoint.mono fun state => rule.mono _ _ state
  exact ⟨hT, hall, hall, fun id retry hr => by cases hr⟩

theorem step (rule : RunRule host settings systemPrompt cond T P) {s t : RunState σ} {move : Move σ} (hw : Waiting s)
    (h : Holds T P s) (hcond : cond s move) (hstep : RunStep host settings systemPrompt s move t) : Holds T P t := by
  cases hstep with
  | edit world => exact ⟨h.trace, h.checkpoint, h.batch, h.retry⟩
  | @discover discovered repos jobs world hfirst hrun =>
    obtain ⟨events, htrace, hevents⟩ := runDiscoveryAndValidationPhase_emits systemPrompt rule.mono rule.running
      rule.validate discovered s.world
    obtain ⟨hT, hall⟩ := hevents _ h.trace
    rw [← htrace, hrun] at hT hall
    exact ⟨hT, hall _ rfl, hall _ rfl, fun id retry hr => by cases hr⟩
  | @discoverThrow discovered message world hfirst hrun =>
    obtain ⟨events, htrace, hevents⟩ := runDiscoveryAndValidationPhase_emits systemPrompt rule.mono rule.running
      rule.validate discovered s.world
    have hT := (hevents _ h.trace).1
    rw [← htrace, hrun] at hT
    rw [hrun] at htrace
    exact rule.restart h htrace hT
  | @handle result repoState attempt world hidle hid hget hrun =>
    obtain ⟨events, htrace, -⟩ := attemptResult_emits host settings systemPrompt result.id repoState result s.world
    obtain ⟨hT, hP⟩ := rule.attempt s result repoState hcond hget (hw.awaited _ hid _ hget) h.trace
      (h.batch _ _ hget) _ _ hrun
    rw [hrun] at htrace
    have hstate := hP attempt rfl
    have hcheckpoint : s.checkpoint.repos.All (P world.trace) := by
      rw [htrace]
      exact h.checkpoint.mono fun state => rule.mono _ _ state
    have hbatch : s.batch.repos.All (P world.trace) := by
      rw [htrace]
      exact h.batch.mono fun state => rule.mono _ _ state
    cases attempt with
    | settled state job => exact ⟨hT, hcheckpoint, hbatch.set _ hstate, fun id retry hr => by cases hr⟩
    | retry request => exact ⟨hT, hcheckpoint, hbatch, fun id retry hr => by cases hr; exact hstate⟩
  | @handleThrow result repoState message world hidle hid hget hrun =>
    obtain ⟨events, htrace, -⟩ := attemptResult_emits host settings systemPrompt result.id repoState result s.world
    obtain ⟨hT, -⟩ := rule.attempt s result repoState hcond hget (hw.awaited _ hid _ hget) h.trace
      (h.batch _ _ hget) _ _ hrun
    rw [hrun] at htrace
    exact rule.restart h htrace hT
  | handleUnknown hidle hid hget => exact ⟨h.trace, h.checkpoint, h.batch, h.retry⟩
  | restage hretry hrestages hrun =>
    have htrace := lifted_trace hrun
    refine ⟨by rw [htrace]; exact h.trace, by rw [htrace]; exact h.checkpoint, by rw [htrace]; exact h.batch, ?_⟩
    intro id retry hr
    cases hr
    have hasked := h.retry _ _ hretry
    rw [htrace]
    exact hasked
  | restageThrow hretry hrestages hrun =>
    have htrace := lifted_trace hrun
    exact rule.restart h (htrace.trans (List.append_nil _).symm) (htrace ▸ h.trace)
  | @queue id retry repoState job world hretry hready hrun =>
    have hstate := rule.finish s id retry hcond hretry hready (h.retry _ _ hretry) repoState job (congrArg (·.1) hrun)
    have htrace := lifted_trace hrun
    refine ⟨?_, ?_, ?_, fun id retry hr => by cases hr⟩
    · rw [RunState.update, htrace]
      exact h.trace
    · rw [RunState.update, htrace]
      exact h.checkpoint
    · rw [RunState.update, htrace]
      exact h.batch.set id hstate
  | queueThrow hretry hready hrun =>
    have htrace := lifted_trace hrun
    exact rule.restart h (htrace.trans (List.append_nil _).symm) (htrace ▸ h.trace)
  | delegate hidle hdone => exact ⟨h.trace, h.batch, h.batch, fun id retry hr => by cases hr⟩

theorem run (rule : RunRule host settings systemPrompt cond T P) {moves : List (Move σ)} {s : RunState σ}
    (h : Run ((runMachine host settings systemPrompt).guarded cond) moves s) : Holds T P s := by
  refine Run.traceInvariant (P := fun _ s => Holds T P s) ?_ ?_ h
  · intro s hs
    obtain ⟨world, rfl⟩ := hs
    exact ⟨rule.nil, (fun id state hget => by cases hget), (fun id state hget => by cases hget), fun id retry hr => by cases hr⟩
  · intro moves s move t hrun hi hstep
    exact rule.step (waiting_run hrun.of_guarded) hi hstep.1 hstep.2

end RunRule

end Machine

end GitCommitsPush.Publication
