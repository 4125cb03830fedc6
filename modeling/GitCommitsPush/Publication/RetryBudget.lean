/-
  GitCommitsPush.Publication.RetryBudget — what handling a result does to the counters of
  a repository.

  `Charged`: it ends the repository, spends one attempt of a kind that has one left, or
  escalates to the fallback model, which it does once. `Charged.budget`: each job is paid
  for out of `RepoState.budget`.
-/

import GitCommitsPush.Lib.Runs
import GitCommitsPush.Publication.PlanText
import GitCommitsPush.Publication.RunInvariant

namespace GitCommitsPush.Publication

open GitCommitsPush.Lib.Effect
open GitCommitsPush.Lib.Runs
open GitCommitsPush.Lib.Trace (lifted lifted_returns Emits)

/-! ## Jobs -/

/-- What the planner is told went wrong. -/
def RetryJob.errors (job : RetryJob) : List FeedbackError :=
  match job.prompt.work with
  | .plan _ feedback => (feedback.map (·.errors)).getD []
  | .repairCommitMessages _ errors => errors

/-- The kind of the retry. -/
def RetryJob.kind (job : RetryJob) : Option FeedbackKind := job.errors.head?.map (·.kind)

/-- A retry of the kind, for the repository, to the model of the settings. -/
structure SentBy (settings : Settings) (repoId : String) (kind : FeedbackKind) (job : RetryJob) : Prop where
  id : job.id = repoId
  provider : job.prompt.provider = settings.provider
  model : job.prompt.model = settings.model
  kind : job.kind = some kind

/-- The evidence of a push-only publication. -/
def RepoState.evidence (repoState : RepoState) : Option TrackedPushSnapshot × Option (List String) :=
  (repoState.pushSnapshot, repoState.pushedShas)

/-- What `queueRetry` answers: a job, and the hash of its plans on record, or the state it
    was given when that hash was there already. -/
inductive Answers {σ : Type} (host : Host σ) (repoId : String) (settings : Settings) (repoState : RepoState)
    (errors : List FeedbackError) (failedPlans : List CommitPlan) : QueueRetryResult → Prop
  | queued {state : RepoState} {job : RetryJob} (hattempts : state.attempts = repoState.attempts)
      (hfallback : state.fallbackAttempted = repoState.fallbackAttempted) (hoperation : state.operation = repoState.operation)
      (hstatus : state.status = repoState.status) (hevidence : state.evidence = repoState.evidence)
      (hhash : state.lastPlanHash = some (hashPlans host failedPlans)) (herrors : job.errors = errors)
      (hid : job.id = repoId) (hprovider : job.prompt.provider = settings.provider)
      (hmodel : job.prompt.model = settings.model) :
      Answers host repoId settings repoState errors failedPlans (.queued state job)
  | loop (hhash : repoState.lastPlanHash = some (hashPlans host failedPlans)) :
      Answers host repoId settings repoState errors failedPlans (.loopDetected repoState)

section Queue

variable {σ : Type} {host : Host σ} {repoId : String} {repoState : RepoState} {errors : List FeedbackError}
  {options : QueueRetryOptions} {settings : Settings} {systemPrompt : String} {failedPlans : List CommitPlan}

theorem queueReplan_answers (pendingFiles : Option (List String)) (actualDiff : String) :
    Answers host repoId settings repoState errors failedPlans
      (queueReplan host repoId repoState errors options settings systemPrompt failedPlans pendingFiles actualDiff) := by
  unfold queueReplan
  by_cases hloop : repoState.lastPlanHash = some (hashPlans host failedPlans)
  · simp only [← hloop]
    exact .loop hloop
  · simp only [if_neg hloop]
    exact .queued rfl rfl rfl rfl rfl rfl rfl rfl rfl rfl

theorem queueRetry_answers :
    Action.Returns (queueRetry host repoId repoState errors options settings systemPrompt failedPlans)
      (Answers host repoId settings repoState errors failedPlans) := by
  unfold queueRetry
  apply Action.Returns.ite
  · intro _
    exact Action.Returns.throw _
  intro hhash
  apply Action.Returns.ite
  · intro _
    unfold queueCommitMessageRepair
    cases hdiff : repoState.diffHash with
    | none => exact absurd (by rw [hdiff]; rfl) hhash
    | some diffHash =>
      rw [hdiff, Option.getD_some] at hhash
      simp only [if_neg hhash]
      by_cases hloop : repoState.lastPlanHash = some (hashPlans host failedPlans)
      · simp only [← hdiff, ← hloop]
        exact Action.Returns.pure (.loop hloop)
      · simp only [if_neg hloop]
        exact Action.Returns.pure (.queued rfl rfl rfl rfl rfl rfl rfl rfl rfl rfl)
  intro _
  refine Action.Returns.bind (Action.Returns.any _) fun remainingDiff _ => ?_
  refine Action.Returns.bind (Action.Returns.any _) fun actualDiff _ => ?_
  exact Action.Returns.pure (queueReplan_answers _ _)

end Queue

/-! ## Results -/

def CommitJobResult.plans : CommitJobResult → List CommitPlan
  | .success _ commits => commits
  | .error _ _ => []

/-- A plan with a message that is not valid. -/
def CommitJobResult.invalidPlan : CommitJobResult → Bool
  | .success _ commits => !(collectCommitMessageValidationErrors commits).isEmpty
  | .error _ _ => false

/-- The validation attempt failed, here or on the planner's side. -/
def CommitJobResult.rejected : CommitJobResult → Bool
  | .success id commits => (CommitJobResult.success id commits).invalidPlan
  | .error _ message => (classifyLLMFailure (sanitizeSensitiveDiagnostic message)).isSome

/-! ## What a result costs -/

/-- An attempt of `kind` was spent, if any. -/
structure Spends (kind : Option FeedbackKind) (rejected : Bool) (before after : RepoState) : Prop where
  operation : after.operation = before.operation
  evidence : before.operation ≠ some .pushOnly → after.evidence = before.evidence
  fallback : after.fallbackAttempted = before.fallbackAttempted
  attempts : ∀ other, before.attempts.get other + (if kind = some other then 1 else 0) ≤ after.attempts.get other
  count : after.attempts.validation ≤ before.attempts.validation + if rejected then 1 else 0

/-- All that handling a result can do to the counters of a repository. -/
inductive Charged {σ : Type} (host : Host σ) (settings : Settings) (repoId : String) (result : CommitJobResult)
    (before : RepoState) : RepoState → Option RetryJob → Prop
  | ended {after : RepoState} (hended : after.status = .SUCCESS ∨ after.status = .FAILED) (hspends : Spends none result.rejected before after)
      (hhash : after.lastPlanHash = before.lastPlanHash) : Charged host settings repoId result before after none
  | again {after : RepoState} {job : RetryJob} (kind : FeedbackKind)
      (hroom : before.attempts.get kind < MAX_ATTEMPTS_BY_KIND.get kind) (hstatus : after.status = before.status)
      (hspends : Spends (some kind) result.rejected before after)
      (hhash : after.lastPlanHash = some (hashPlans host result.plans)) (hsent : SentBy settings repoId kind job) :
      Charged host settings repoId result before after (some job)
  | escalated {after : RepoState} {job : RetryJob} (hcommit : before.operation ≠ some .pushOnly)
      (hoperation : after.operation = before.operation) (hstatus : after.status = before.status)
      (hevidence : after.evidence = before.evidence) (hfirst : before.fallbackAttempted = false)
      (hafter : after.fallbackAttempted = true)
      (hattempts : ∀ other, other ≠ .validation → before.attempts.get other ≤ after.attempts.get other)
      (hinvalid : result.invalidPlan = true)
      (hlate : 2 ≤ before.attempts.validation ∨ before.lastPlanHash = some (hashPlans host result.plans))
      (hsent : SentBy (buildFallbackSettings settings) repoId .validation job) :
      Charged host settings repoId result before after (some job)

theorem Charged.operation {σ : Type} {host : Host σ} {settings : Settings} {repoId : String} {result : CommitJobResult}
    {before after : RepoState} {job : Option RetryJob} (h : Charged host settings repoId result before after job) :
    after.operation = before.operation := by
  cases h with
  | ended hended hspends => exact hspends.operation
  | again kind hroom hstatus hspends => exact hspends.operation
  | escalated hcommit hoperation => exact hoperation

theorem Spends.none {kind : Option FeedbackKind} {rejected : Bool} {before after : RepoState}
    (h : Spends kind rejected before after) : Spends .none rejected before after where
  operation := h.operation
  evidence := h.evidence
  fallback := h.fallback
  attempts := fun other => Nat.le_trans (Nat.add_le_add_left (Nat.zero_le _) _) (h.attempts other)
  count := h.count

theorem spends_nothing (rejected : Bool) {before after : RepoState} (hoperation : after.operation = before.operation)
    (hevidence : before.operation ≠ some .pushOnly → after.evidence = before.evidence)
    (hfallback : after.fallbackAttempted = before.fallbackAttempted)
    (hattempts : ∀ other, before.attempts.get other ≤ after.attempts.get other)
    (hcount : after.attempts.validation = before.attempts.validation) : Spends none rejected before after where
  operation := hoperation
  evidence := hevidence
  fallback := hfallback
  attempts := hattempts
  count := by omega

theorem get_countAttempt (repoState : RepoState) (kind other : FeedbackKind) :
    (countAttempt repoState kind).attempts.get other =
      repoState.attempts.get other + if some kind = some other then 1 else 0 := by
  cases kind <;> cases other <;> rfl

theorem spends_countAttempt {rejected : Bool} {before state : RepoState} {kind : FeedbackKind}
    (h : Spends none rejected before state) (hcount : state.attempts.validation = before.attempts.validation)
    (hrejected : kind = .validation → rejected = true) : Spends (some kind) rejected before (countAttempt state kind) where
  operation := h.operation
  evidence := h.evidence
  fallback := h.fallback
  attempts := fun other => by
    have := h.attempts other
    rw [get_countAttempt]
    simp only [reduceCtorEq, if_false] at this
    omega
  count := by
    have hget := get_countAttempt state kind .validation
    simp only [AttemptsByKind.get, Option.some.injEq] at hget
    rw [hget, hcount]
    by_cases hkind : kind = .validation
    · simp [hrejected hkind, hkind]
    · simp [hkind]

/-- The attempts of a kind that are left. -/
def RepoState.left (repoState : RepoState) (kind : FeedbackKind) : Nat :=
  MAX_ATTEMPTS_BY_KIND.get kind - repoState.attempts.get kind

/-- What is left to spend: the attempts of each kind, and the fallback with its own two. -/
def RepoState.budget (repoState : RepoState) : Nat :=
  repoState.left .validation + (if repoState.fallbackAttempted then 0 else 3) + repoState.left .structural +
    repoState.left .race + repoState.left .git + repoState.left .network

theorem left_le (repoState : RepoState) (kind : FeedbackKind) : repoState.left kind ≤ MAX_ATTEMPTS_BY_KIND.get kind :=
  Nat.sub_le _ _

theorem left_mono {before after : RepoState} {kind : FeedbackKind}
    (h : before.attempts.get kind ≤ after.attempts.get kind) : after.left kind ≤ before.left kind :=
  Nat.sub_le_sub_left h _

theorem Spends.left_mono {kind : Option FeedbackKind} {rejected : Bool} {before after : RepoState}
    (h : Spends kind rejected before after) (other : FeedbackKind) : after.left other ≤ before.left other :=
  Publication.left_mono (Nat.le_trans (Nat.le_add_right _ _) (h.attempts other))

theorem Spends.left_lt {kind : FeedbackKind} {rejected : Bool} {before after : RepoState}
    (h : Spends (some kind) rejected before after) (hroom : before.attempts.get kind < MAX_ATTEMPTS_BY_KIND.get kind) :
    after.left kind + 1 ≤ before.left kind := by
  have hattempts := h.attempts kind
  rw [if_pos rfl] at hattempts
  unfold RepoState.left
  omega

section Charges

variable {σ : Type} {host : Host σ} {settings : Settings} {repoId : String} {result : CommitJobResult}
  {before after : RepoState} {job : Option RetryJob}

/-- A job costs one; nothing is ever given back. -/
theorem Charged.budget (h : Charged host settings repoId result before after job) :
    (if job.isSome then 1 else 0) + after.budget ≤ before.budget := by
  unfold RepoState.budget
  cases h with
  | ended hended hspends hhash =>
    have hvalidation := hspends.left_mono .validation
    have hstructural := hspends.left_mono .structural
    have hrace := hspends.left_mono .race
    have hgit := hspends.left_mono .git
    have hnetwork := hspends.left_mono .network
    simp only [hspends.fallback, Option.isSome_none, Bool.false_eq_true, if_false]
    omega
  | again kind hroom hstatus hspends hhash hsent =>
    have hspent := hspends.left_lt hroom
    have hvalidation := hspends.left_mono .validation
    have hstructural := hspends.left_mono .structural
    have hrace := hspends.left_mono .race
    have hgit := hspends.left_mono .git
    have hnetwork := hspends.left_mono .network
    simp only [hspends.fallback, Option.isSome_some, if_true]
    cases kind <;> omega
  | escalated hcommit hoperation hstatus hevidence hfirst hafter hattempts hinvalid hlate hsent =>
    have hvalidation : after.left .validation ≤ 2 := left_le after .validation
    have hstructural := left_mono (hattempts .structural (by decide))
    have hrace := left_mono (hattempts .race (by decide))
    have hgit := left_mono (hattempts .git (by decide))
    have hnetwork := left_mono (hattempts .network (by decide))
    simp only [hfirst, hafter, Option.isSome_some, if_true, Bool.false_eq_true, if_false]
    omega

/-- A retry of a kind other than validation takes one of what is left of it. -/
theorem Charged.kind (h : Charged host settings repoId result before after job) {kind : FeedbackKind}
    (hkind : kind ≠ .validation) :
    (if job.any (fun job => job.kind == some kind) then 1 else 0) + after.left kind ≤ before.left kind := by
  cases h with
  | ended hended hspends hhash =>
    have := hspends.left_mono kind
    simp only [Option.any_none, Bool.false_eq_true, if_false]
    omega
  | again spent hroom hstatus hspends hhash hsent =>
    simp only [Option.any_some, hsent.kind]
    by_cases heq : spent = kind
    · subst heq
      have := hspends.left_lt hroom
      simp only [beq_self_eq_true, if_true]
      omega
    · have hne : (some spent == some kind) = false := beq_eq_false_iff_ne.mpr fun h => heq (Option.some.inj h)
      have := hspends.left_mono kind
      simp only [hne, Bool.false_eq_true, if_false]
      omega
  | escalated hcommit hoperation hstatus hevidence hfirst hafter hattempts hinvalid hlate hsent =>
    have hne : (some FeedbackKind.validation == some kind) = false :=
      beq_eq_false_iff_ne.mpr fun h => hkind (Option.some.inj h).symm
    have := left_mono (hattempts kind hkind)
    simp only [Option.any_some, hsent.kind, hne, Bool.false_eq_true, if_false]
    omega

/-- A repository with a job to come keeps its status, any other is over. -/
theorem Charged.status (h : Charged host settings repoId result before after job) :
    (job = none ∧ (after.status = .SUCCESS ∨ after.status = .FAILED)) ∨
      ∃ queued, job = some queued ∧ queued.id = repoId ∧ after.status = before.status := by
  cases h with
  | ended hended hspends hhash => exact .inl ⟨rfl, hended⟩
  | again kind hroom hstatus hspends hhash hsent => exact .inr ⟨_, rfl, hsent.id, hstatus⟩
  | escalated hcommit hoperation hstatus hevidence hfirst hafter hattempts hinvalid hlate hsent =>
    exact .inr ⟨_, rfl, hsent.id, hstatus⟩

theorem Charged.evidence (h : Charged host settings repoId result before after job) (hcommit : before.operation ≠ some .pushOnly) :
    after.evidence = before.evidence := by
  cases h with
  | ended hended hspends hhash => exact hspends.evidence hcommit
  | again kind hroom hstatus hspends hhash hsent => exact hspends.evidence hcommit
  | escalated _ hoperation hstatus hevidence hfirst hafter hattempts hinvalid hlate hsent => exact hevidence

end Charges

/-! ## The planner's failures -/

section Handlers

variable {σ : Type} (host : Host σ) (settings : Settings) (systemPrompt repoId : String)

/-- All that an attempt can do to them, its retry still to come. -/
inductive Attempted (result : CommitJobResult) (before : RepoState) : Attempt → Prop
  | settled {after : RepoState} {job : Option RetryJob} (h : Charged host settings repoId result before after job) :
      Attempted result before (.settled after job)
  | retry {request : RetryRequest} (kind : FeedbackKind) (error : FeedbackError)
      (hroom : before.attempts.get kind < MAX_ATTEMPTS_BY_KIND.get kind)
      (hspends : Spends (some kind) result.rejected before request.repoState)
      (hstatus : request.repoState.status = before.status)
      (hhash : request.repoState.lastPlanHash = before.lastPlanHash) (hplans : request.failedPlans = result.plans)
      (herrors : request.errors = [error]) (hkind : error.kind = kind) : Attempted result before (.retry request)

/-- The status and the report of a repository cost nothing. -/
theorem spends_report (rejected : Bool) (repoState : RepoState) (status : RepoStatus) (commits : Option (List CommitPlan))
    (error : Option String) : Spends none rejected repoState { repoState with status, commits, error } :=
  spends_nothing rejected rfl (fun _ => rfl) rfl (fun _ => Nat.le_refl _) rfl

theorem handleLlmJobFailure_attempted (repoState : RepoState) (id error : String) :
    Attempted host settings repoId (.error id error) repoState (handleLlmJobFailure repoState error) := by
  unfold handleLlmJobFailure
  simp only
  cases hclass : classifyLLMFailure (sanitizeSensitiveDiagnostic error) with
  | none =>
    simp only
    split
    · exact .settled (.ended (.inl rfl) (spends_report _ repoState _ _ _) rfl)
    · exact .settled (.ended (.inr rfl) (spends_report _ repoState _ _ _) rfl)
  | some kind =>
    have hrejected : (CommitJobResult.error id error).rejected = true := by
      rw [CommitJobResult.rejected, hclass]
      rfl
    simp only
    by_cases hroom : repoState.attempts.get kind < MAX_ATTEMPTS_BY_KIND.get kind
    · rw [if_pos hroom]
      have hnothing : Spends none (CommitJobResult.error id error).rejected repoState repoState :=
        spends_nothing _ rfl (fun _ => rfl) rfl (fun _ => Nat.le_refl _) rfl
      exact .retry kind _ hroom (spends_countAttempt hnothing rfl fun _ => hrejected) rfl rfl rfl rfl rfl
    · rw [if_neg hroom]
      exact .settled (.ended (.inr rfl) (spends_report _ repoState _ _ _) rfl)

/-! ## Invalid messages -/

theorem collected_head {plans : List CommitPlan} (h : (collectCommitMessageValidationErrors plans).isEmpty = false) :
    (collectCommitMessageValidationErrors plans).head?.map (·.kind) = some .validation := by
  cases hcollect : collectCommitMessageValidationErrors plans with
  | nil => rw [hcollect] at h; cases h
  | cons e errors =>
    have he := collected_kind 0 plans e (by rw [← collectCommitMessageValidationErrors, hcollect]; exact List.mem_cons_self)
    rw [List.head?_cons, Option.map_some, he]

theorem get_set_other (attempts : AttemptsByKind) {kind other : FeedbackKind} (n : Nat) (h : other ≠ kind) :
    (attempts.set kind n).get other = attempts.get other := by
  cases kind <;> cases other <;> first | rfl | exact absurd rfl h

/-- The fallback model's job is always queued: the record of plans is clean. -/
theorem queueFallback_answers {state : RepoState} {errors : List FeedbackError} {plans : List CommitPlan}
    (herrors : errors.head?.map (·.kind) = some .validation) :
    Action.Returns (queueFallback host repoId settings systemPrompt state errors plans) fun answer =>
      ∃ after job, answer = .queued after job ∧ after.operation = state.operation ∧ after.status = state.status ∧
        after.evidence = state.evidence ∧ after.fallbackAttempted = true ∧
        (∀ other, other ≠ .validation → state.attempts.get other ≤ after.attempts.get other) ∧
        SentBy (buildFallbackSettings settings) repoId .validation job := by
  intro w answer h
  have hanswers := queueRetry_answers w answer h
  cases hanswers with
  | loop hhash => cases hhash
  | @queued after job hattempts hfallback hoperation hstatus hevidence hhash hjob hid hprovider hmodel =>
    refine ⟨after, job, rfl, hoperation, hstatus, hevidence, hfallback, ?_, hid, hprovider, hmodel, ?_⟩
    · intro other hother
      exact Nat.le_of_eq (by rw [hattempts, get_set_other _ _ hother])
    · rw [RetryJob.kind, hjob, herrors]

section Invalid

variable {before : RepoState} {id : String} {plans : List CommitPlan}

theorem afterRepeatedRepair_attempted (hfirst : before.fallbackAttempted = false)
    (hinvalid : (collectCommitMessageValidationErrors plans).isEmpty = false)
    (hhash : before.lastPlanHash = some (hashPlans host plans)) :
    ∀ {state : RepoState}, Spends none true before state → state.status = before.status →
      state.lastPlanHash = before.lastPlanHash → before.operation ≠ some .pushOnly →
      Action.Returns (afterRepeatedRepair host repoId settings systemPrompt state
        (collectCommitMessageValidationErrors plans) plans) (Attempted host settings repoId (.success id plans) before) := by
  intro state hspends hrunning hsame hcommit
  have hrejected : (CommitJobResult.success id plans).rejected = true := by
    simp only [CommitJobResult.rejected, CommitJobResult.invalidPlan, hinvalid, Bool.not_false]
  have hfailed : ∀ error loopDetected, Attempted host settings repoId (.success id plans) before
      (.settled { state with status := .FAILED, error := error, loopDetected := loopDetected } none) := by
    intro error loopDetected
    refine .settled (.ended (.inr rfl) ?_ hsame)
    rw [hrejected]
    exact ⟨hspends.operation, hspends.evidence, hspends.fallback, hspends.attempts, hspends.count⟩
  unfold afterRepeatedRepair
  apply Action.Returns.ite
  · intro _
    refine Action.Returns.bind (queueFallback_answers host settings systemPrompt repoId (collected_head hinvalid)) ?_
    intro answer h
    obtain ⟨after, job, rfl, hoperation, hstatus, hevidence, hafter, hattempts, hsent⟩ := h
    refine Action.Returns.pure (.settled (.escalated hcommit ?_ (hstatus.trans hrunning) ?_ hfirst hafter ?_ hrejected
      (.inr hhash) hsent))
    · exact hoperation.trans hspends.operation
    · exact hevidence.trans (hspends.evidence hcommit)
    · intro other hother
      exact Nat.le_trans (hspends.attempts other) (hattempts other hother)
  · intro _
    exact Action.Returns.pure (hfailed _ _)

theorem handleValidationRetry_attempted (hcommit : before.operation ≠ some .pushOnly) :
    Action.Returns (handleValidationRetry host repoId settings systemPrompt before plans) fun attempt =>
      ∀ a, attempt = some a → Attempted host settings repoId (.success id plans) before a := by
  have hsome : ∀ {attempt : Attempt}, Attempted host settings repoId (.success id plans) before attempt →
      Action.Returns (pure (some attempt) : Action σ String (Option Attempt))
        fun attempt => ∀ a, attempt = some a → Attempted host settings repoId (.success id plans) before a := by
    intro attempt h
    refine Action.Returns.pure ?_
    intro a ha
    cases ha
    exact h
  have hfailed : ∀ error, Attempted host settings repoId (.success id plans) before
      (.settled { before with status := .FAILED, error := error } none) :=
    fun error => .settled (.ended (.inr rfl) (spends_nothing _ rfl (fun _ => rfl) rfl (fun _ => Nat.le_refl _) rfl) rfl)
  unfold handleValidationRetry
  apply Action.Returns.ite
  · intro _
    exact Action.Returns.pure fun a ha => by cases ha
  intro hcollect
  have hinvalid := Bool.not_eq_true _ ▸ hcollect
  have hrejected : (CommitJobResult.success id plans).rejected = true := by
    simp only [CommitJobResult.rejected, CommitJobResult.invalidPlan, hinvalid, Bool.not_false]
  apply Action.Returns.ite
  · intro _
    exact hsome (hfailed _)
  intro hfallback
  have hfirst := Bool.not_eq_true _ ▸ hfallback
  apply Action.Returns.ite
  · intro hroom
    have hspends : Spends (some .validation) (CommitJobResult.success id plans).rejected before
        (countAttempt before .validation) :=
      spends_countAttempt (spends_nothing _ rfl (fun _ => rfl) rfl (fun _ => Nat.le_refl _) rfl) rfl fun _ => hrejected
    refine Action.Returns.bind queueRetry_answers ?_
    intro answer h
    cases h with
    | @queued after job hattempts hfallback hoperation hstatus hevidence hhash hjob hid hprovider hmodel =>
      refine hsome (.settled (.again .validation hroom hstatus ⟨?_, ?_, ?_, ?_, ?_⟩ hhash ⟨hid, hprovider, hmodel, ?_⟩))
      · exact hoperation
      · exact fun _ => hevidence
      · exact hfallback
      · intro other
        rw [hattempts]
        exact hspends.attempts other
      · rw [hattempts]
        exact hspends.count
      · rw [RetryJob.kind, hjob, collected_head hinvalid]
    | loop hhash =>
      have hnone : Spends none true before (countAttempt before .validation) := by
        rw [← hrejected]
        exact hspends.none
      have hend : Action.Returns (afterRepeatedRepair host repoId settings systemPrompt (countAttempt before .validation)
          (collectCommitMessageValidationErrors plans) plans) (Attempted host settings repoId (.success id plans) before) :=
        afterRepeatedRepair_attempted host settings systemPrompt repoId hfirst hinvalid hhash hnone rfl rfl hcommit
      exact Action.Returns.bind hend fun attempt hattempt => hsome hattempt
  intro hspent
  apply Action.Returns.ite
  · intro _
    refine Action.Returns.bind (queueFallback_answers host settings systemPrompt repoId (collected_head hinvalid)) ?_
    intro answer h
    obtain ⟨after, job, rfl, hoperation, hstatus, hevidence, hafter, hattempts, hsent⟩ := h
    exact hsome (.settled (.escalated hcommit hoperation hstatus hevidence hfirst hafter hattempts hrejected
      (.inl (Nat.le_of_not_lt hspent)) hsent))
  · intro _
    exact hsome (hfailed _)

end Invalid

/-! ## Publications -/

theorem classifyError_kind {err : PublishError} {exist : Bool} {error : FeedbackError}
    (h : classifyError err exist = .retry error) : error.kind ≠ .validation := by
  cases err with
  | commitPlan message kind files context =>
    simp only [classifyError] at h
    split at h
    · cases h
    · cases h
      exact fun h => by cases h
  | diffHashMismatch =>
    cases h
    exact fun h => by cases h
  | partialCommit message context =>
    cases h
    exact fun h => by cases h
  | push failure =>
    simp only [classifyError] at h
    split at h
    · cases h
      exact fun h => by cases h
    · cases h
  | gitExec message command exitCode => cases h
  | postCommitPush error context => cases h
  | other message => cases h

theorem get_addNetworkRetries (repoState : RepoState) (pushRetryCount : Nat) (other : FeedbackKind) :
    repoState.attempts.get other ≤ (addNetworkRetries repoState pushRetryCount).attempts.get other := by
  cases other with
  | network => exact Nat.le_add_right _ _
  | validation => exact Nat.le_refl _
  | structural => exact Nat.le_refl _
  | race => exact Nat.le_refl _
  | git => exact Nat.le_refl _

/-- A failed publication costs network attempts at most. -/
theorem mergeFailure_spends (rejected : Bool) (repoState : RepoState) (err : PublishError) :
    Spends none rejected repoState (mergeFailure repoState err).1 ∧
      (mergeFailure repoState err).1.attempts.validation = repoState.attempts.validation ∧
      (mergeFailure repoState err).1.lastPlanHash = repoState.lastPlanHash ∧
      (mergeFailure repoState err).1.status = repoState.status := by
  have hsame : Spends none rejected repoState repoState ∧
      repoState.attempts.validation = repoState.attempts.validation ∧ repoState.lastPlanHash = repoState.lastPlanHash ∧
        repoState.status = repoState.status :=
    ⟨spends_nothing _ rfl (fun _ => rfl) rfl (fun _ => Nat.le_refl _) rfl, rfl, rfl, rfl⟩
  cases err with
  | commitPlan message kind files context =>
    cases context with
    | none => exact hsame
    | some context =>
      simp only [mergeFailure]
      split
      · exact hsame
      · exact ⟨spends_nothing _ rfl (fun _ => rfl) rfl (fun _ => Nat.le_refl _) rfl, rfl, rfl, rfl⟩
  | postCommitPush error context => exact ⟨spends_nothing _ rfl (fun _ => rfl) rfl (get_addNetworkRetries _ _) rfl, rfl, rfl, rfl⟩
  | partialCommit message context => exact ⟨spends_nothing _ rfl (fun _ => rfl) rfl (fun _ => Nat.le_refl _) rfl, rfl, rfl, rfl⟩
  | diffHashMismatch => exact hsame
  | gitExec message command exitCode => exact hsame
  | push error => exact hsame
  | other message => exact hsame

theorem mergePublished_spends (rejected : Bool) (repoState : RepoState) (published : Published) (commits : List CommitPlan) :
    Spends none rejected repoState (mergePublished repoState published commits) ∧
      (mergePublished repoState published commits).lastPlanHash = repoState.lastPlanHash ∧
      (mergePublished repoState published commits).status = .SUCCESS := by
  unfold mergePublished
  dsimp only
  split
  · exact ⟨spends_nothing _ rfl (fun _ => rfl) rfl (get_addNetworkRetries repoState _) rfl, rfl, rfl⟩
  · exact ⟨spends_nothing _ rfl (fun _ => rfl) rfl (fun _ => Nat.le_refl _) rfl, rfl, rfl⟩

section Publish

variable {before : RepoState} {id : String} {commits : List CommitPlan}

theorem handlePublishError_attempted (err : PublishError) :
    Action.Returns (handlePublishError host before commits err)
      (Attempted host settings repoId (.success id commits) before) := by
  obtain ⟨hspends, hcount, hhash, hstatus⟩ := mergeFailure_spends (CommitJobResult.success id commits).rejected before err
  have hsettled : ∀ status commits' error, status = .SUCCESS ∨ status = .FAILED →
      Attempted host settings repoId (.success id commits) before
        (.settled { (mergeFailure before err).1 with status, commits := commits', error } none) :=
    fun _ _ _ hended => .settled (.ended hended ⟨hspends.operation, hspends.evidence, hspends.fallback, hspends.attempts, hspends.count⟩ hhash)
  unfold handlePublishError
  simp only
  cases hclass : classifyError err (hasCommittedShas (mergeFailure before err).1) with
  | success => exact Action.Returns.pure (hsettled _ _ _ (.inl rfl))
  | fail error => exact Action.Returns.pure (hsettled _ _ _ (.inr rfl))
  | retry error =>
    apply Action.Returns.ite
    · intro hroom
      refine Action.Returns.bind (Action.Returns.any _) fun _ _ => ?_
      have hkind := classifyError_kind hclass
      have hless := Nat.lt_of_le_of_lt (hspends.attempts error.kind) hroom
      exact Action.Returns.pure (.retry error.kind error hless (spends_countAttempt hspends hcount fun h => absurd h hkind)
        hstatus hhash rfl rfl rfl)
    · intro _
      exact Action.Returns.pure (hsettled _ _ _ (.inr rfl))

theorem publishPlans_attempted :
    Action.Returns (publishPlans host settings repoId before commits)
      (Attempted host settings repoId (.success id commits) before) := by
  unfold publishPlans
  simp only
  apply Action.Returns.ite
  · intro _
    exact Action.Returns.throw _
  intro _
  refine Action.Returns.bind (Action.Returns.any _) ?_
  intro r _
  cases r with
  | ok published =>
    obtain ⟨hspends, hhash, hended⟩ := mergePublished_spends (CommitJobResult.success id commits).rejected before published commits
    exact Action.Returns.pure (.settled (.ended (.inl hended) hspends hhash))
  | error err => exact handlePublishError_attempted host settings repoId err

end Publish

/-! ## One result -/

theorem handlePushOnlyCheckpointResult_charged {before : RepoState} (hpush : before.operation = some .pushOnly)
    (result : CommitJobResult) :
    Action.Returns (handlePushOnlyCheckpointResult host before result settings) fun after =>
      Charged host settings repoId result before after none := by
  have hnothing : ∀ {after : RepoState}, after.operation = some .pushOnly → after.fallbackAttempted = before.fallbackAttempted →
      after.attempts = before.attempts → Spends none result.rejected before after := by
    intro after hoperation hfallback hattempts
    refine spends_nothing _ (hoperation.trans hpush.symm) (fun h => absurd hpush h) hfallback ?_ (by rw [hattempts])
    intro other
    exact Nat.le_of_eq (by rw [hattempts])
  unfold handlePushOnlyCheckpointResult
  cases before.pushSnapshot with
  | none => exact Action.Returns.throw _
  | some snapshot =>
    refine Action.Returns.bind (Action.Returns.any _) ?_
    intro r _
    cases r with
    | ok pushedShas =>
      exact Action.Returns.pure (.ended (.inl rfl) (hnothing rfl rfl rfl) rfl)
    | error error =>
      exact Action.Returns.pure (.ended (.inr rfl) (hnothing rfl rfl rfl) rfl)

theorem attemptResult_attempted (before : RepoState) (result : CommitJobResult) :
    Action.Returns (attemptResult host settings systemPrompt repoId before result)
      (Attempted host settings repoId result before) := by
  unfold attemptResult
  apply Action.Returns.ite
  · intro hpush
    refine Action.Returns.bind (handlePushOnlyCheckpointResult_charged host settings repoId hpush result) ?_
    intro after h
    exact Action.Returns.pure (.settled h)
  intro hcommit
  cases result with
  | error id message => exact Action.Returns.pure (handleLlmJobFailure_attempted host settings repoId before id message)
  | success id commits =>
    have hretry : Action.Returns (handleValidationRetry host repoId settings systemPrompt before commits) fun attempt =>
        ∀ a, attempt = some a → Attempted host settings repoId (.success id commits) before a :=
      handleValidationRetry_attempted host settings systemPrompt repoId hcommit
    refine Action.Returns.bind (lifted_returns hretry) ?_
    intro attempt h
    cases attempt with
    | some attempt => exact Action.Returns.pure (h attempt rfl)
    | none => exact publishPlans_attempted host settings repoId

theorem requeue_charged {before : RepoState} {result : CommitJobResult} {request : RetryRequest}
    (h : Attempted host settings repoId result before (.retry request)) :
    Action.Returns (requeue host settings systemPrompt repoId request) fun answer =>
      Charged host settings repoId result before answer.1 answer.2 := by
  cases h with
  | retry kind error hroom hspends hstatus hhash hplans herrors hkind =>
    unfold requeue
    refine Action.Returns.bind queueRetry_answers ?_
    intro answer hanswer
    refine Action.Returns.pure ?_
    cases hanswer with
    | @queued after job hattempts hfallback hoperation hsame hevidence hplan hjob hid hprovider hmodel =>
      refine .again kind hroom (hsame.trans hstatus) ⟨?_, ?_, ?_, ?_, ?_⟩ (hplans ▸ hplan) ⟨hid, hprovider, hmodel, ?_⟩
      · exact hoperation.trans hspends.operation
      · exact fun hcommit => hevidence.trans (hspends.evidence hcommit)
      · exact hfallback.trans hspends.fallback
      · intro other
        simp only [answerRetry, hattempts]
        exact hspends.attempts other
      · simp only [answerRetry, hattempts]
        exact hspends.count
      · rw [RetryJob.kind, hjob, herrors, List.head?_cons, Option.map_some, hkind]
    | loop hloop =>
      have hnone := hspends.none
      unfold answerRetry loopState
      cases request.loop with
      | afterLlmFailure => exact .ended (.inr rfl) ⟨hnone.operation, hnone.evidence, hnone.fallback, hnone.attempts, hnone.count⟩ hhash
      | afterPublish kind => exact .ended (.inr rfl) ⟨hnone.operation, hnone.evidence, hnone.fallback, hnone.attempts, hnone.count⟩ hhash

theorem handleResult_charged (before : RepoState) (result : CommitJobResult) :
    Action.Returns (handleResult host settings systemPrompt repoId before result) fun answer =>
      Charged host settings repoId result before answer.1 answer.2 := by
  unfold handleResult
  refine Action.Returns.bind (attemptResult_attempted host settings systemPrompt repoId before result) ?_
  intro attempt h
  cases attempt with
  | settled after job =>
    cases h with
    | settled h => exact Action.Returns.pure h
  | retry request => exact lifted_returns (requeue_charged host settings systemPrompt repoId h)

/-- After the fallback, an invalid plan ends the repository. -/
theorem handleResult_terminal {before : RepoState} {result : CommitJobResult} (hcommit : before.operation ≠ some .pushOnly)
    (hfallback : before.fallbackAttempted = true) (hinvalid : result.invalidPlan = true) :
    Action.Returns (handleResult host settings systemPrompt repoId before result) fun answer =>
      answer.1.status = .FAILED ∧ answer.2 = none := by
  cases result with
  | error id message => cases hinvalid
  | success id commits =>
    have hcollect : ¬ (collectCommitMessageValidationErrors commits).isEmpty = true := by
      simpa [CommitJobResult.invalidPlan] using hinvalid
    intro w answer h
    unfold handleResult attemptResult handleValidationRetry at h
    simp only [if_neg hcommit, if_neg hcollect, if_pos hfallback] at h
    cases h
    exact ⟨rfl, rfl⟩

end Handlers

end GitCommitsPush.Publication
