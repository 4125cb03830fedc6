/-
  GitCommitsPush.Publication.ResultTrace — what handling one result does to a repository.

  `Handled` is all that an attempt can do to a commit-and-push repository: it calls the
  publisher with the hash on record only, records commits that exist, leaves the status
  alone when a job is still to come, and reaches SUCCESS by a push, or without one when
  the result is read as an empty plan after commits have landed (`EmptyReport`).
-/

import GitCommitsPush.Publication.Phases
import GitCommitsPush.Publication.PublisherTrace
import GitCommitsPush.Publication.RetryCommands

namespace GitCommitsPush.Publication

open GitCommitsPush.Lib.Effect
open GitCommitsPush.Lib.Trace (lifted note Emits EmitsOnly)

/-! ## `queueRetry` -/

/-- What the retries never change. -/
def RepoState.books (repoState : RepoState) : String × Option RepositoryOperation × Option (List CommittedSha) :=
  (repoState.repository, repoState.operation, repoState.committedShas)

def QueueRetryResult.repoState : QueueRetryResult → RepoState
  | queued repoState _ | loopDetected repoState => repoState

def QueueRetryResult.job : QueueRetryResult → Option RetryJob
  | queued _ job => some job
  | loopDetected _ => none

/-- A result that keeps the books and the status, its job under the repository's id. -/
structure Requeues (repoId : String) (repoState : RepoState) (result : QueueRetryResult) : Prop where
  books : result.repoState.books = repoState.books
  status : result.repoState.status = repoState.status
  job : ∀ job, result.job = some job → job.id = repoId

section Queue

variable {σ : Type} {host : Host σ} {repoId : String} {repoState : RepoState} {errors : List FeedbackError}
  {options : QueueRetryOptions} {settings : Settings} {systemPrompt : String} {failedPlans : List CommitPlan}

/-- A repair of the messages keeps the hash. -/
theorem queueRetry_repair (hrepair : isMessageRepair errors failedPlans = true) :
    Action.Returns (queueRetry host repoId repoState errors options settings systemPrompt failedPlans)
      fun result => Requeues repoId repoState result ∧ result.repoState.diffHash = repoState.diffHash := by
  intro w result h
  unfold queueRetry at h
  by_cases hempty : repoState.diffHash.getD "" = ""
  · rw [if_pos hempty] at h; cases h
  rw [if_neg hempty, if_pos hrepair] at h
  unfold queueCommitMessageRepair at h
  cases hhash : repoState.diffHash with
  | none => simp only [hhash] at h; cases h
  | some diffHash =>
    rw [hhash, Option.getD_some] at hempty
    simp only [hhash, if_neg hempty] at h
    by_cases hloop : repoState.lastPlanHash = some (hashPlans host failedPlans)
    · rw [if_pos hloop] at h
      cases h
      exact ⟨⟨rfl, rfl, fun job hj => by cases hj⟩, rfl⟩
    · rw [if_neg hloop] at h
      cases h
      exact ⟨⟨rfl, rfl, fun job hj => by cases hj; rfl⟩, rfl⟩

/-- Any other plan to retry takes the hash of the diff it was given, unless it is a loop. -/
theorem queueReplan_requeues {pendingFiles : Option (List String)} {actualDiff : String} {result : QueueRetryResult}
    (h : queueReplan host repoId repoState errors options settings systemPrompt failedPlans pendingFiles actualDiff = result) :
    Requeues repoId repoState result ∧
      (result.repoState.diffHash = repoState.diffHash ∨
        result.repoState.diffHash = some (host.sha256 actualDiff)) := by
  rw [← h]
  unfold queueReplan
  simp only
  split
  · exact ⟨⟨rfl, rfl, fun job hj => by cases hj⟩, .inl rfl⟩
  · exact ⟨⟨rfl, rfl, fun job hj => by cases hj; rfl⟩, .inr rfl⟩

end Queue

/-! ## Attempts -/

def Attempt.repoState : Attempt → RepoState
  | settled repoState _ => repoState
  | retry request => request.repoState

/-- The job queued already. -/
def Attempt.job : Attempt → Option RetryJob
  | settled _ job => job
  | retry _ => none

/-- A job is to follow. -/
def Attempt.continues : Attempt → Bool
  | settled _ job => job.isSome
  | retry _ => true

/-- Invalid messages: the books stay, and a repository with a job to come keeps its status. -/
structure Repaired (repoId : String) (repoState : RepoState) (attempt : Attempt) : Prop where
  books : attempt.repoState.books = repoState.books
  diffHash : attempt.repoState.diffHash = repoState.diffHash
  continues : attempt.continues = true → attempt.repoState.status = repoState.status
  success : attempt.repoState.status = .SUCCESS → repoState.status = .SUCCESS
  job : ∀ job, attempt.job = some job → job.id = repoId

theorem isMessageRepair_collected {plans : List CommitPlan}
    (h : (collectCommitMessageValidationErrors plans).isEmpty = false) :
    isMessageRepair (collectCommitMessageValidationErrors plans) plans = true := by
  have hplans : plans.isEmpty = false := by
    cases plans with
    | nil => cases h
    | cons plan plans => rfl
  have hkind : (collectCommitMessageValidationErrors plans).all (·.kind == .validation) = true := by
    rw [List.all_eq_true]
    intro e he
    rw [collected_kind 0 plans e he]
    rfl
  rw [isMessageRepair, hplans, h, hkind]
  rfl

/-! ## Validation retries -/

section Validation

variable {σ : Type} (host : Host σ) (repoId : String) (settings : Settings) (systemPrompt : String)
  {repoState state : RepoState} {errors : List FeedbackError} {plans : List CommitPlan}

theorem repaired_queued {job : RetryJob} (h : Requeues repoId repoState (.queued state job))
    (hhash : state.diffHash = repoState.diffHash) : Repaired repoId repoState (.settled state (some job)) where
  books := h.books
  diffHash := hhash
  continues := fun _ => h.status
  success := fun hs => h.status ▸ hs
  job := fun job' hj => h.job job' hj

theorem repaired_failed (hbooks : state.books = repoState.books) (hstatus : state.status = .FAILED)
    (hhash : state.diffHash = repoState.diffHash) : Repaired repoId repoState (.settled state none) where
  books := hbooks
  diffHash := hhash
  continues := fun h => by cases h
  success := fun h => by rw [Attempt.repoState, hstatus] at h; cases h
  job := fun job h => by cases h

theorem queueFallback_repairs (hrepair : isMessageRepair errors plans = true) (hbooks : state.books = repoState.books)
    (hstatus : state.status = repoState.status) (hhash : state.diffHash = repoState.diffHash) :
    Action.Returns (queueFallback host repoId settings systemPrompt state errors plans)
      fun result => Requeues repoId repoState result ∧ result.repoState.diffHash = repoState.diffHash := by
  intro w result h
  obtain ⟨hrequeues, hhash'⟩ := queueRetry_repair hrepair w result h
  exact ⟨⟨hrequeues.books.trans hbooks, hrequeues.status.trans hstatus, hrequeues.job⟩, hhash'.trans hhash⟩

theorem afterRepeatedRepair_repaired (hrepair : isMessageRepair errors plans = true) (hbooks : state.books = repoState.books)
    (hstatus : state.status = repoState.status) (hhash : state.diffHash = repoState.diffHash) :
    Action.Returns (afterRepeatedRepair host repoId settings systemPrompt state errors plans) (Repaired repoId repoState) := by
  unfold afterRepeatedRepair
  have hfailed : ∀ error loopDetected, Repaired repoId repoState (.settled
      { state with status := .FAILED, error := error, loopDetected := loopDetected } none) :=
    fun _ _ => repaired_failed repoId hbooks rfl hhash
  apply Action.Returns.ite
  · intro _
    refine Action.Returns.bind (queueFallback_repairs host repoId settings systemPrompt hrepair hbooks hstatus hhash) ?_
    intro result h
    cases result with
    | queued state' job => exact Action.Returns.pure (repaired_queued repoId h.1 h.2)
    | loopDetected state' => exact Action.Returns.pure (hfailed _ _)
  · intro _
    exact Action.Returns.pure (hfailed _ _)

/-- Every answer to invalid messages is a repair of the messages, or the end. -/
theorem handleValidationRetry_repaired (repoState : RepoState) (plans : List CommitPlan) :
    Action.Returns (handleValidationRetry host repoId settings systemPrompt repoState plans)
      fun attempt => ∀ a, attempt = some a → Repaired repoId repoState a := by
  have hsome : ∀ {attempt : Attempt}, Repaired repoId repoState attempt → Action.Returns
      (pure (some attempt) : Action σ String (Option Attempt)) fun attempt => ∀ a, attempt = some a → Repaired repoId repoState a := by
    intro attempt h
    refine Action.Returns.pure ?_
    intro a ha
    cases ha
    exact h
  have hfailed : ∀ error, Repaired repoId repoState
      (.settled { repoState with status := .FAILED, error := error } none) :=
    fun error => repaired_failed repoId rfl rfl rfl
  unfold handleValidationRetry
  apply Action.Returns.ite
  · intro _
    exact Action.Returns.pure fun a ha => by cases ha
  intro herrors
  have hrepair := isMessageRepair_collected (Bool.not_eq_true _ ▸ herrors)
  apply Action.Returns.ite
  · intro _
    exact hsome (hfailed _)
  intro _
  apply Action.Returns.ite
  · intro _
    refine Action.Returns.bind (queueRetry_repair hrepair) ?_
    intro result h
    obtain ⟨hrequeues, hhash⟩ := h
    cases result with
    | queued state job => exact hsome (repaired_queued repoId ⟨hrequeues.books, hrequeues.status, hrequeues.job⟩ hhash)
    | loopDetected state =>
      have hrepaired : Action.Returns (afterRepeatedRepair host repoId settings systemPrompt state _ plans)
          (Repaired repoId repoState) :=
        afterRepeatedRepair_repaired host repoId settings systemPrompt hrepair hrequeues.books hrequeues.status hhash
      exact Action.Returns.bind hrepaired fun attempt hattempt => hsome hattempt
  intro _
  apply Action.Returns.ite
  · intro _
    refine Action.Returns.bind (queueFallback_repairs host repoId settings systemPrompt hrepair rfl rfl rfl) ?_
    intro result h
    obtain ⟨hrequeues, hhash⟩ := h
    cases result with
    | queued state job => exact hsome (repaired_queued repoId hrequeues hhash)
    | loopDetected state => exact hsome (repaired_failed repoId hrequeues.books rfl hhash)
  · intro _
    exact hsome (hfailed _)

end Validation

/-! ## Publications -/

/-- The commits on record. -/
def RepoState.recorded (repoState : RepoState) : List CommittedSha := repoState.committedShas.getD []

/-- The result says that nothing is left to plan, or is read so. -/
def CommitJobResult.reportsEmpty : CommitJobResult → Bool
  | .success _ commits => commits.isEmpty
  | .error _ message =>
    let llmError := sanitizeSensitiveDiagnostic message
    (classifyLLMFailure llmError).isNone && isLlmEmptyPlans llmError

/-- An empty plan after commits have landed: SUCCESS without a push. -/
def EmptyReport (repoState : RepoState) (result : CommitJobResult) : Prop :=
  repoState.recorded ≠ [] ∧ result.reportsEmpty = true

/-- All that an attempt on a commit-and-push repository can do. -/
structure Handled (repoId : String) (repoState : RepoState) (result : CommitJobResult) (attempt : Attempt)
    (events : List Event) : Prop where
  repository : attempt.repoState.repository = repoState.repository
  operation : attempt.repoState.operation = repoState.operation
  diffHash : attempt.repoState.diffHash = repoState.diffHash
  recorded : ∀ c ∈ attempt.repoState.recorded,
    c ∈ repoState.recorded ∨ Event.committed repoState.repository c.sha ∈ events
  continues : attempt.continues = true → attempt.repoState.status = repoState.status
  success : attempt.repoState.status = .SUCCESS →
    repoState.status = .SUCCESS ∨ EmptyReport repoState result ∨
      ∃ front, events = front ++ [.pushed repoState.repository] ∧
        ∀ c ∈ attempt.repoState.recorded, c ∈ repoState.recorded ∨ Event.committed repoState.repository c.sha ∈ front
  job : ∀ job, attempt.job = some job → job.id = repoId

/-- The publisher was called with the hash on record only. -/
def Calls (repoState : RepoState) (events : List Event) : Prop :=
  ∀ repository hash, Event.executing repository hash ∈ events →
    repository = repoState.repository ∧ repoState.diffHash = some hash

theorem Repaired.handled {repoId : String} {repoState : RepoState} {attempt : Attempt}
    (h : Repaired repoId repoState attempt) (result : CommitJobResult) : Handled repoId repoState result attempt [] where
  repository := congrArg (·.1) h.books
  operation := congrArg (·.2.1) h.books
  diffHash := h.diffHash
  recorded := fun c hc => .inl (by
    have hshas : attempt.repoState.committedShas = repoState.committedShas := congrArg (·.2.2) h.books
    rwa [RepoState.recorded, hshas] at hc)
  continues := h.continues
  success := fun hs => .inl (h.success hs)
  job := h.job

theorem mem_mergeInto {c : CommittedSha} {merged incoming : List CommittedSha} (h : c ∈ mergeInto merged incoming) :
    c ∈ merged ∨ c ∈ incoming := by
  induction incoming generalizing merged with
  | nil => exact .inl h
  | cons committedSha incoming ih =>
    unfold mergeInto at h
    split at h
    · exact (ih h).imp_right (List.mem_cons_of_mem _)
    · rcases ih h with h | h
      · rcases List.mem_append.mp h with h | h
        · exact .inl h
        · exact .inr (List.mem_singleton.mp h ▸ List.mem_cons_self)
      · exact .inr (List.mem_cons_of_mem _ h)

/-- A failure changes the record only by the commits the error reports. -/
theorem mergeFailure_books (repoState : RepoState) (err : PublishError) :
    let merged := (mergeFailure repoState err).1
    merged.repository = repoState.repository ∧ merged.operation = repoState.operation ∧
      merged.diffHash = repoState.diffHash ∧ merged.status = repoState.status ∧
      ∀ c ∈ merged.recorded, c ∈ repoState.recorded ∨ c ∈ err.committedShas := by
  have hsame : repoState.repository = repoState.repository ∧ repoState.operation = repoState.operation ∧
      repoState.diffHash = repoState.diffHash ∧ repoState.status = repoState.status ∧
      ∀ c ∈ repoState.recorded, c ∈ repoState.recorded ∨ c ∈ err.committedShas :=
    ⟨rfl, rfl, rfl, rfl, fun c hc => .inl hc⟩
  cases err with
  | commitPlan message kind files context =>
    cases context with
    | none => exact hsame
    | some context =>
      simp only [mergeFailure]
      split
      · exact hsame
      · exact ⟨rfl, rfl, rfl, rfl, fun c hc => mem_mergeInto hc⟩
  | postCommitPush error context => exact ⟨rfl, rfl, rfl, rfl, fun c hc => mem_mergeInto hc⟩
  | partialCommit message context => exact ⟨rfl, rfl, rfl, rfl, fun c hc => mem_mergeInto hc⟩
  | diffHashMismatch => exact hsame
  | gitExec message command exitCode => exact hsame
  | push error => exact hsame
  | other message => exact hsame

theorem mergeFailure_nothing {repoState : RepoState} {err : PublishError} (hkind : err.isEmptyPlans = true)
    (hshas : err.committedShas = []) : (mergeFailure repoState err).1 = repoState := by
  cases err with
  | commitPlan message kind files context =>
    cases context with
    | none => rfl
    | some context =>
      simp only [PublishError.committedShas] at hshas
      simp only [mergeFailure, if_pos hshas]
  | postCommitPush error context => cases hkind
  | partialCommit message context => cases hkind
  | diffHashMismatch => rfl
  | gitExec message command exitCode => rfl
  | push error => rfl
  | other message => rfl

theorem classifyError_success {err : PublishError} {exist : Bool} (h : classifyError err exist = .success) :
    err.isEmptyPlans = true ∧ exist = true := by
  cases err with
  | commitPlan message kind files context =>
    simp only [classifyError] at h
    split at h
    · rename_i hkind
      obtain ⟨rfl, hexist⟩ := hkind
      exact ⟨rfl, hexist⟩
    · cases h
  | push error =>
    simp only [classifyError] at h
    split at h <;> cases h
  | diffHashMismatch => cases h
  | gitExec message command exitCode => cases h
  | partialCommit message context => cases h
  | postCommitPush error context => cases h
  | other message => cases h

theorem hasCommittedShas_iff (repoState : RepoState) : hasCommittedShas repoState = true ↔ repoState.recorded ≠ [] := by
  unfold hasCommittedShas RepoState.recorded
  cases repoState.committedShas.getD [] with
  | nil => simp
  | cons c shas => simp

section Publish

variable {σ : Type} (host : Host σ)

/-- A publication that noted `more` after its call. -/
theorem calls_executing {repoState : RepoState} {hash : String} {more : List Event} (hhash : repoState.diffHash = some hash)
    (hmore : Publishing repoState.repository more) :
    Calls repoState (.executing repoState.repository hash :: more) := by
  intro repository h hmem
  rcases List.mem_cons.mp hmem with he | hmem
  · cases he
    exact ⟨rfl, hhash⟩
  · rcases hmore _ hmem with ⟨sha, he⟩ | he <;> cases he

/-- After a failed publication that noted `events`. -/
theorem handlePublishError_handled (repoId id : String) {repoState : RepoState} {commits : List CommitPlan} {err : PublishError}
    {events : List Event} (hlanded : Landed repoState.repository events err.committedShas)
    (hempty : err.isEmptyPlans = true → commits = [] ∧ err.committedShas = []) :
    Emits (handlePublishError host repoState commits err) fun r more => more = [] ∧
      ∀ attempt, r = .ok attempt → Handled repoId repoState (.success id commits) attempt events := by
  obtain ⟨hrepository, hoperation, hdiff, hstatus, hrecorded⟩ := mergeFailure_books repoState err
  have hrec : ∀ c ∈ (mergeFailure repoState err).1.recorded, c ∈ repoState.recorded ∨
      Event.committed repoState.repository c.sha ∈ events :=
    fun c hc => (hrecorded c hc).imp_right (hlanded c)
  have hfailed : ∀ message, Handled repoId repoState (.success id commits)
      (.settled { (mergeFailure repoState err).1 with status := .FAILED, error := message } none) events := fun _ =>
    ⟨hrepository, hoperation, hdiff, hrec, (fun h => by cases h), (fun h => by cases h), fun job h => by cases h⟩
  unfold handlePublishError
  simp only
  cases hclass : classifyError err (hasCommittedShas (mergeFailure repoState err).1) with
  | success =>
    obtain ⟨hkind, hexist⟩ := classifyError_success hclass
    obtain ⟨hcommits, hshas⟩ := hempty hkind
    rw [mergeFailure_nothing hkind hshas] at hexist
    refine Emits.pure ⟨rfl, ?_⟩
    intro attempt h
    cases h
    refine ⟨hrepository, hoperation, hdiff, hrec, (fun h => by cases h), fun _ => .inr (.inl ⟨?_, ?_⟩), fun job h => by cases h⟩
    · exact (hasCommittedShas_iff _).mp hexist
    · rw [hcommits, CommitJobResult.reportsEmpty, List.isEmpty_nil]
  | retry error =>
    apply Emits.ite
    · intro _
      refine Emits.bind_lifted (fun _ => ?_) fun e => ⟨rfl, fun attempt h => by cases h⟩
      refine Emits.pure ⟨rfl, ?_⟩
      intro attempt h
      cases h
      exact ⟨hrepository, hoperation, hdiff, hrec, fun _ => hstatus, fun h => .inl (hstatus ▸ h), fun job h => by cases h⟩
    · intro _
      refine Emits.pure ⟨rfl, ?_⟩
      intro attempt h
      cases h
      exact hfailed _
  | fail error =>
    refine Emits.pure ⟨rfl, ?_⟩
    intro attempt h
    cases h
    exact hfailed _

theorem mergePublished_books (repoState : RepoState) (published : Published) (commits : List CommitPlan) :
    let merged := mergePublished repoState published commits
    merged.repository = repoState.repository ∧ merged.operation = repoState.operation ∧
      merged.diffHash = repoState.diffHash ∧
      merged.recorded = mergeInto repoState.recorded published.committedShas := by
  unfold mergePublished
  simp only
  split <;> exact ⟨rfl, rfl, rfl, rfl⟩

theorem publishPlans_handled (settings : Settings) (repoId id : String) (repoState : RepoState) (commits : List CommitPlan) :
    Emits (publishPlans host settings repoId repoState commits) fun r events => Calls repoState events ∧
      ∀ attempt, r = .ok attempt → Handled repoId repoState (.success id commits) attempt events := by
  unfold publishPlans
  simp only
  apply Emits.ite
  · intro _
    exact Emits.throw ⟨(fun _ _ h => by cases h), fun attempt h => by cases h⟩
  intro hempty
  obtain ⟨hash, hhash⟩ : ∃ hash, repoState.diffHash = some hash := by
    cases hd : repoState.diffHash with
    | none => exact absurd (by rw [hd]; rfl) hempty
    | some hash => exact ⟨hash, rfl⟩
  rw [hhash, Option.getD_some]
  refine Emits.bind_outcome
    (executeMultiCommitAndPush_emits host repoState.repository commits hash settings) fun r events h => ?_
  obtain ⟨more, rfl, hmore, hr⟩ := h
  have hcalls := calls_executing hhash hmore
  cases r with
  | error err =>
    have hlanded := hr.1.mono fun e he => List.mem_cons_of_mem (.executing repoState.repository hash) he
    refine (handlePublishError_handled host repoId id hlanded hr.2).conseq ?_
    intro r events h
    rw [h.1, List.append_nil]
    exact ⟨hcalls, h.2⟩
  | ok published =>
    obtain ⟨-, landing, rfl, hlanded⟩ := hr
    obtain ⟨hrepository, hoperation, hdiff, hmerged⟩ := mergePublished_books repoState published commits
    have hrecorded : ∀ c ∈ (mergePublished repoState published commits).recorded,
        c ∈ repoState.recorded ∨ Event.committed repoState.repository c.sha ∈ landing := by
      intro c hc
      rw [hmerged] at hc
      exact (mem_mergeInto hc).imp_right (hlanded c)
    refine Emits.pure ⟨by rwa [List.append_nil], ?_⟩
    intro attempt hattempt
    cases hattempt
    rw [List.append_nil]
    refine ⟨hrepository, hoperation, hdiff, fun c hc => ?_, (fun h => by cases h), fun _ => .inr (.inr ?_),
      fun job h => by cases h⟩
    · refine (hrecorded c hc).imp_right fun h => ?_
      exact List.mem_cons_of_mem _ (List.mem_append_left _ h)
    · refine ⟨.executing repoState.repository hash :: landing, rfl, fun c hc => ?_⟩
      exact (hrecorded c hc).imp_right (List.mem_cons_of_mem _)

end Publish

/-! ## LLM failures -/

theorem handleLlmJobFailure_handled (repoId : String) (repoState : RepoState) (id error : String) :
    Handled repoId repoState (.error id error) (handleLlmJobFailure repoState error) [] := by
  have hfailed : ∀ message, Handled repoId repoState (.error id error)
      (.settled { repoState with status := .FAILED, error := message } none) [] := fun _ =>
    ⟨rfl, rfl, rfl, fun c hc => .inl hc, (fun h => by cases h), (fun h => by cases h), fun job h => by cases h⟩
  unfold handleLlmJobFailure
  simp only
  cases hkind : classifyLLMFailure (sanitizeSensitiveDiagnostic error) with
  | none =>
    simp only
    split
    · rename_i hempty
      rw [Bool.and_eq_true] at hempty
      refine ⟨rfl, rfl, rfl, fun c hc => .inl hc, (fun h => by cases h), fun _ => .inr (.inl ⟨?_, ?_⟩),
        fun job h => by cases h⟩
      · exact (hasCommittedShas_iff _).mp hempty.2
      · simp only [CommitJobResult.reportsEmpty, hkind, hempty.1]
        rfl
    · exact hfailed _
  | some kind =>
    simp only
    split
    · exact ⟨rfl, rfl, rfl, fun c hc => .inl hc, fun _ => rfl, fun h => .inl h, fun job h => by cases h⟩
    · exact hfailed _

/-! ## Push-only results -/

def Event.IsScan : Event → Prop
  | scanned _ _ => True
  | _ => False

section PushOnly

variable {σ : Type} (host : Host σ) (settings : Settings)

theorem validateDiffForSecrets_scans (repository diff : String) :
    EmitsOnly (validateDiffForSecrets (σ := σ) repository diff) Event.IsScan := by
  unfold validateDiffForSecrets
  apply EmitsOnly.ite
  · intro _
    exact EmitsOnly.throw _
  · intro _
    exact EmitsOnly.note True.intro

theorem publishCheckpoint_scans (repoState : RepoState) (snapshot : TrackedPushSnapshot) (result : CommitJobResult) :
    EmitsOnly (publishCheckpoint host repoState snapshot result settings) Event.IsScan := by
  unfold publishCheckpoint
  cases result with
  | error id error => exact EmitsOnly.throw _
  | success id commits =>
    apply EmitsOnly.ite
    · intro _
      exact EmitsOnly.throw _
    intro _
    refine EmitsOnly.bind ?_ fun pushedShas => ?_
    · unfold validateAndPushTrackedSnapshot
      apply EmitsOnly.ite
      · intro _
        exact EmitsOnly.pure _
      intro _
      have hscan : EmitsOnly (do
          lifted (assertOutgoingShasMatchSnapshot host repoState.repository snapshot)
          let patches ← lifted (readCommitPatches host repoState.repository snapshot.outgoingShas)
          validateDiffForSecrets repoState.repository patches
          lifted (pushTrackedSnapshot host repoState.repository snapshot)) Event.IsScan := by
        refine EmitsOnly.bind (EmitsOnly.lifted _) fun _ => ?_
        refine EmitsOnly.bind (EmitsOnly.lifted _) fun patches => ?_
        refine EmitsOnly.bind (validateDiffForSecrets_scans _ _) fun _ => ?_
        exact EmitsOnly.lifted _
      apply EmitsOnly.ite
      · intro _
        exact EmitsOnly.bind (EmitsOnly.lifted _) fun _ => hscan
      · intro _
        exact hscan
    · apply EmitsOnly.ite
      · intro _
        exact EmitsOnly.throw _
      · intro _
        exact EmitsOnly.pure _

theorem handlePushOnlyCheckpointResult_emits (repoState : RepoState) (result : CommitJobResult) :
    Emits (handlePushOnlyCheckpointResult host repoState result settings) fun r events =>
      (∀ e ∈ events, e.IsScan) ∧ ∀ state, r = .ok state → state.operation = some .pushOnly := by
  unfold handlePushOnlyCheckpointResult
  cases repoState.pushSnapshot with
  | none => exact Emits.throw ⟨(fun e he => by cases he), fun state h => by cases h⟩
  | some snapshot =>
    refine Emits.bind_outcome (publishCheckpoint_scans host settings repoState snapshot result) fun r events h => ?_
    cases r with
    | ok pushedShas => exact Emits.pure ⟨by rwa [List.append_nil], fun state hs => by cases hs; rfl⟩
    | error error => exact Emits.pure ⟨by rwa [List.append_nil], fun state hs => by cases hs; rfl⟩

end PushOnly

/-! ## Any result -/

/-- What an attempt does to a repository of either kind. -/
def AttemptEffect (repoId : String) (repoState : RepoState) (result : CommitJobResult) (attempt : Attempt)
    (events : List Event) : Prop :=
  if repoState.operation = some .pushOnly then ∃ state, attempt = .settled state none ∧ state.operation = some .pushOnly
  else Handled repoId repoState result attempt events

/-- What one result may do: a push-only repository is never planned. -/
theorem attemptResult_emits {σ : Type} (host : Host σ) (settings : Settings) (systemPrompt repoId : String)
    (repoState : RepoState) (result : CommitJobResult) :
    Emits (attemptResult host settings systemPrompt repoId repoState result) fun r events =>
      (if repoState.operation = some .pushOnly then ∀ e ∈ events, e.IsScan else Calls repoState events) ∧
        ∀ attempt, r = .ok attempt → AttemptEffect repoId repoState result attempt events := by
  unfold attemptResult AttemptEffect
  apply Emits.ite
  · intro hpush
    simp only [if_pos hpush]
    refine Emits.bind (handlePushOnlyCheckpointResult_emits host settings repoState result) ?_ ?_
    · intro state events h
      refine Emits.pure ?_
      rw [List.append_nil]
      refine ⟨h.1, fun attempt hattempt => ?_⟩
      cases hattempt
      exact ⟨state, rfl, h.2 state rfl⟩
    · intro e events h
      exact ⟨h.1, fun attempt h => by cases h⟩
  intro hpush
  have hnil : Calls repoState [] := fun _ _ h => by cases h
  simp only [if_neg hpush]
  cases result with
  | error id error =>
    refine Emits.pure ⟨hnil, ?_⟩
    intro attempt h
    rw [← Except.ok.inj h]
    exact handleLlmJobFailure_handled repoId repoState id error
  | success id commits =>
    refine Emits.bind (Emits.lifted (Q := fun r events => events = [] ∧
      ∀ attempt, r = .ok (some attempt) → Repaired repoId repoState attempt) fun w => ⟨rfl, fun attempt h => ?_⟩) ?_ ?_
    · exact handleValidationRetry_repaired host repoId settings systemPrompt repoState commits w _ h attempt rfl
    · intro validated events h
      obtain ⟨rfl, h⟩ := h
      cases validated with
      | none => exact publishPlans_handled host settings repoId id repoState commits
      | some attempt =>
        refine Emits.pure ⟨hnil, ?_⟩
        intro attempt' h'
        cases h'
        exact (h attempt rfl).handled _
    · intro e events h
      rw [h.1]
      exact ⟨hnil, fun attempt h => by cases h⟩

end GitCommitsPush.Publication
