/-
  GitCommitsPush.Publication.Deliveries — the results delivered to phase 2 and the retries
  they queue.

  Any result may come at any time, for any repository and in any world: the ledger of a
  run keeps, for each result handled, the state before and after and the job queued. A
  phase that throws delegates nothing and is no part of a run;
  `runCommitAndPushPhase_deliveries` shows that one that returns is.

  `retries_bounded`: the bounds on the jobs of a repository, over every run.
-/

import GitCommitsPush.Publication.RetryBudget
import GitCommitsPush.Publication.SuccessPushed

namespace GitCommitsPush.Publication

open GitCommitsPush.Lib.Effect
open GitCommitsPush.Lib.Log (EveryEntry)
open GitCommitsPush.Lib.Runs
open GitCommitsPush.Lib.Trace (Emits)

/-! ## The ledger -/

structure Delivery where
  result : CommitJobResult
  before : RepoState
  after : RepoState
  job : Option RetryJob

/-- Its job is the fallback model's turn. -/
def Delivery.escalates (d : Delivery) : Bool := d.job.isSome && d.after.fallbackAttempted && !d.before.fallbackAttempted

/-- Its job is a retry of the kind. -/
def Delivery.retries (kind : FeedbackKind) (d : Delivery) : Bool := d.job.any fun job => job.kind == some kind

structure DeliveryState where
  repos : Repos
  ledger : List Delivery

/-- What was delivered for one repository. -/
def DeliveryState.deliveries (s : DeliveryState) (id : String) : List Delivery := s.ledger.filter (·.result.id == id)

section Machine

variable {σ : Type} (host : Host σ) (settings : Settings) (systemPrompt : String)

inductive DeliveryStep : DeliveryState → CommitJobResult → DeliveryState → Prop
  | handled {s : DeliveryState} {result : CommitJobResult} {before after : RepoState} {job : Option RetryJob}
      {world world' : Traced σ} (hget : s.repos.get result.id = some before)
      (hrun : (handleResult host settings systemPrompt result.id before result).run world = (.ok (after, job), world')) :
      DeliveryStep s result ⟨s.repos.set result.id after, s.ledger ++ [⟨result, before, after, job⟩]⟩
  | unknown {s : DeliveryState} {result : CommitJobResult} (hget : s.repos.get result.id = none) : DeliveryStep s result s

/-- From the repositories phase 1 leaves, every sequence of results. -/
def deliveryMachine : Machine DeliveryState CommitJobResult where
  init s := s.ledger = [] ∧ ∃ (discovered : List RepositoryInfo) (jobs : List DelegatedJob) (world world' : Traced σ),
    (runDiscoveryAndValidationPhase host settings systemPrompt discovered []).run world = (.ok (s.repos, jobs), world')
  step := DeliveryStep host settings systemPrompt

/-- The results of a phase that returns are delivered, and its jobs are those of the ledger. -/
theorem runCommitAndPushPhase_deliveries (results : List CommitJobResult) {s : DeliveryState} {retryJobs jobs : List RetryJob}
    {repos : Repos} {world world' : Traced σ}
    (hrun : (runCommitAndPushPhase host settings systemPrompt s.repos retryJobs results).run world = (.ok (repos, jobs), world')) :
    ∃ deliveries : List Delivery, jobs = retryJobs ++ deliveries.filterMap (·.job) ∧
      Steps (deliveryMachine host settings systemPrompt) s results ⟨repos, s.ledger ++ deliveries⟩ := by
  induction results generalizing s retryJobs world with
  | nil =>
    cases hrun
    refine ⟨[], (List.append_nil _).symm, ?_⟩
    rw [List.append_nil]
    exact .nil
  | cons result results ih =>
    unfold runCommitAndPushPhase at hrun
    cases hget : s.repos.get result.id with
    | none =>
      simp only [hget] at hrun
      obtain ⟨deliveries, hjobs, hsteps⟩ := ih hrun
      have hfirst := Steps.single (M := deliveryMachine host settings systemPrompt) (.unknown hget)
      exact ⟨deliveries, hjobs, hfirst.trans hsteps⟩
    | some before =>
      simp only [hget, Action.run_bind] at hrun
      cases hresult : (handleResult host settings systemPrompt result.id before result).run world with
      | mk r world₁ =>
        rw [hresult] at hrun
        cases r with
        | error message => cases hrun
        | ok answer =>
          obtain ⟨after, job⟩ := answer
          have hfirst := Steps.single (M := deliveryMachine host settings systemPrompt) (.handled hget hresult)
          obtain ⟨deliveries, hjobs, hsteps⟩ :=
            ih (s := ⟨s.repos.set result.id after, s.ledger ++ [⟨result, before, after, job⟩]⟩) hrun
          refine ⟨⟨result, before, after, job⟩ :: deliveries, ?_, ?_⟩
          · rw [hjobs, List.append_assoc]
            cases job <;> rfl
          · rw [List.append_cons]
            exact hfirst.trans hsteps

end Machine

/-! ## One delivery more -/

/-- SHA-256 takes no two of the plans delivered to one hash. -/
def NoCollision {σ : Type} (host : Host σ) (deliveries : List Delivery) : Prop :=
  ∀ d ∈ deliveries, ∀ e ∈ deliveries, host.sha256 (planText host d.result.plans) = host.sha256 (planText host e.result.plans) →
    planText host d.result.plans = planText host e.result.plans

/-- The fallback model's turn comes after two failed validations at least. -/
def LateEscalation (before : List Delivery) (d : Delivery) : Prop :=
  d.escalates = true → 2 ≤ (before ++ [d]).countP (·.result.rejected)

/-- After the fallback model's turn an invalid plan ends the repository. -/
def TerminalInvalid (before : List Delivery) (d : Delivery) : Prop :=
  (∃ e ∈ before, e.escalates = true) → d.result.invalidPlan = true → d.after.status = .FAILED ∧ d.job = none

/-- The model of the job. -/
def Delivery.settings (settings : Settings) (d : Delivery) : Settings :=
  if d.escalates then buildFallbackSettings settings else settings

/-- What the deliveries of a repository say of its state. -/
structure Accounted {σ : Type} (host : Host σ) (settings : Settings) (id : String) (deliveries : List Delivery)
    (repoState : RepoState) : Prop where
  budget : deliveries.countP (·.job.isSome) + repoState.budget ≤ 9
  kinds : ∀ kind, kind ≠ .validation → deliveries.countP (·.retries kind) + repoState.left kind ≤ 1
  escalations : deliveries.countP (·.escalates) = if repoState.fallbackAttempted then 1 else 0
  planned : repoState.fallbackAttempted = true → repoState.operation ≠ some .pushOnly
  counted : repoState.fallbackAttempted = false → repoState.attempts.validation ≤ deliveries.countP (·.result.rejected)
  remembered : repoState.fallbackAttempted = false → ∀ hash, repoState.lastPlanHash = some hash →
    1 ≤ deliveries.countP (·.result.rejected) ∨
      ∃ d ∈ deliveries, d.result.rejected = false ∧ hash = hashPlans host d.result.plans
  sent : ∀ d ∈ deliveries, ∀ job, d.job = some job → ∃ kind, SentBy (d.settings settings) id kind job
  late : EveryEntry (fun before d _ => NoCollision host (before ++ [d]) → LateEscalation before d) deliveries
  terminal : EveryEntry (fun before d _ => TerminalInvalid before d) deliveries

theorem valid_of_not_rejected {result : CommitJobResult} (h : result.rejected = false) : ValidMessages result.plans := by
  cases result with
  | error id message => exact fun plan hplan => by cases hplan
  | success id commits =>
    simp only [CommitJobResult.rejected, CommitJobResult.invalidPlan, Bool.not_eq_false'] at h
    exact (collectFrom_isEmpty 0 commits).mp h

theorem not_valid_of_invalidPlan {result : CommitJobResult} (h : result.invalidPlan = true) : ¬ ValidMessages result.plans := by
  cases result with
  | error id message => cases h
  | success id commits =>
    intro hvalid
    have hempty : (collectCommitMessageValidationErrors commits).isEmpty = true := (collectFrom_isEmpty 0 commits).mpr hvalid
    rw [CommitJobResult.invalidPlan, hempty] at h
    cases h

theorem rejected_of_invalidPlan {result : CommitJobResult} (h : result.invalidPlan = true) : result.rejected = true := by
  cases result with
  | error id message => cases h
  | success id commits => exact h

section Step

variable {σ : Type} {host : Host σ} {settings : Settings} {id : String} {result : CommitJobResult} {before after : RepoState}
  {job : Option RetryJob} {deliveries : List Delivery}

/-- A delivery escalates when it is the one that sets the mark. -/
theorem Charged.escalates (h : Charged host settings id result before after job) :
    ((⟨result, before, after, job⟩ : Delivery).escalates = false ∧ after.fallbackAttempted = before.fallbackAttempted) ∨
      ((⟨result, before, after, job⟩ : Delivery).escalates = true ∧ before.fallbackAttempted = false ∧
        after.fallbackAttempted = true ∧ before.operation ≠ some .pushOnly ∧ result.invalidPlan = true ∧
        (2 ≤ before.attempts.validation ∨ before.lastPlanHash = some (hashPlans host result.plans))) := by
  cases h with
  | ended hended hspends hhash => exact .inl ⟨rfl, hspends.fallback⟩
  | again kind hroom hstatus hspends hhash hsent =>
    refine .inl ⟨?_, hspends.fallback⟩
    rw [Delivery.escalates, hspends.fallback]
    cases before.fallbackAttempted <;> rfl
  | escalated hcommit hoperation hstatus hevidence hfirst hafter hattempts hinvalid hlate hsent =>
    refine .inr ⟨?_, hfirst, hafter, hcommit, hinvalid, hlate⟩
    rw [Delivery.escalates, hfirst, hafter]
    rfl

theorem Charged.sent (h : Charged host settings id result before after job) {queued : RetryJob} (hjob : job = some queued) :
    ∃ kind, SentBy ((⟨result, before, after, job⟩ : Delivery).settings settings) id kind queued := by
  have hescalates := h.escalates
  cases h with
  | ended hended hspends hhash => cases hjob
  | again kind hroom hstatus hspends hhash hsent =>
    cases hjob
    rcases hescalates with ⟨hnot, -⟩ | ⟨-, hfirst, hafter, -⟩
    · rw [Delivery.settings, hnot]
      exact ⟨kind, hsent⟩
    · rw [hspends.fallback, hfirst] at hafter
      cases hafter
  | escalated hcommit hoperation hstatus hevidence hfirst hafter hattempts hinvalid hlate hsent =>
    cases hjob
    rw [Delivery.settings, Delivery.escalates, hfirst, hafter]
    exact ⟨.validation, hsent⟩

/-- Before the fallback model's turn, the validation attempts and the last plans are on record. -/
theorem Charged.recorded (h : Charged host settings id result before after job) (hafter : after.fallbackAttempted = false) :
    after.attempts.validation ≤ before.attempts.validation + (if result.rejected then 1 else 0) ∧
      (after.lastPlanHash = before.lastPlanHash ∨ after.lastPlanHash = some (hashPlans host result.plans)) := by
  cases h with
  | ended hended hspends hhash => exact ⟨hspends.count, .inl hhash⟩
  | again kind hroom hstatus hspends hhash hsent => exact ⟨hspends.count, .inr hhash⟩
  | escalated hcommit hoperation hstatus hevidence hfirst hmarked hattempts hinvalid hlate hsent =>
    rw [hmarked] at hafter
    cases hafter

theorem countP_snoc {α : Type} (p : α → Bool) (l : List α) (a : α) : (l ++ [a]).countP p = l.countP p + if p a then 1 else 0 := by
  rw [List.countP_append, List.countP_singleton]

/-- Escalating on a repeated plan: the plan before it was invalid too. -/
theorem Accounted.late_step (h : Accounted host settings id deliveries before)
    (hcharged : Charged host settings id result before after job)
    (hcollision : NoCollision host (deliveries ++ [⟨result, before, after, job⟩])) :
    LateEscalation deliveries ⟨result, before, after, job⟩ := by
  intro hescalates
  rcases hcharged.escalates with ⟨hnot, -⟩ | ⟨-, hfirst, -, -, hinvalid, hlate⟩
  · rw [hnot] at hescalates
    cases hescalates
  rw [countP_snoc, if_pos (rejected_of_invalidPlan hinvalid)]
  rcases hlate with hspent | hrepeated
  · have := h.counted hfirst
    omega
  · rcases h.remembered hfirst _ hrepeated with hone | ⟨d, hd, hvalid, hhash⟩
    · omega
    · have htext : planText host result.plans = planText host d.result.plans :=
        hcollision ⟨result, before, after, job⟩ (List.mem_append_right _ List.mem_cons_self) d (List.mem_append_left _ hd) hhash
      exact absurd ((planText_valid host htext).mpr (valid_of_not_rejected hvalid)) (not_valid_of_invalidPlan hinvalid)

theorem Accounted.step (h : Accounted host settings id deliveries before)
    (hcharged : Charged host settings id result before after job)
    (hterminal : before.operation ≠ some .pushOnly → before.fallbackAttempted = true → result.invalidPlan = true →
      after.status = .FAILED ∧ job = none) :
    Accounted host settings id (deliveries ++ [⟨result, before, after, job⟩]) after where
  budget := by
    have := h.budget
    have := hcharged.budget
    rw [countP_snoc]
    show deliveries.countP (·.job.isSome) + (if job.isSome = true then 1 else 0) + after.budget ≤ 9
    omega
  kinds := by
    intro kind hkind
    have := h.kinds kind hkind
    have hleft : (if (⟨result, before, after, job⟩ : Delivery).retries kind then 1 else 0) + after.left kind ≤ before.left kind :=
      hcharged.kind hkind
    rw [countP_snoc]
    omega
  escalations := by
    rw [countP_snoc, h.escalations]
    rcases hcharged.escalates with ⟨hnot, hsame⟩ | ⟨hescalates, hfirst, hafter, -⟩
    · rw [hnot, hsame]
      rfl
    · rw [hescalates, hfirst, hafter]
      rfl
  planned := by
    intro hafter
    rw [hcharged.operation]
    rcases hcharged.escalates with ⟨-, hsame⟩ | ⟨-, -, -, hcommit, -⟩
    · exact h.planned (hsame ▸ hafter)
    · exact hcommit
  counted := by
    intro hafter
    rcases hcharged.escalates with ⟨-, hsame⟩ | ⟨-, -, hmarked, -⟩
    · have := h.counted (hsame ▸ hafter)
      have := (hcharged.recorded hafter).1
      rw [countP_snoc]
      show after.attempts.validation ≤ deliveries.countP (·.result.rejected) + if result.rejected = true then 1 else 0
      omega
    · rw [hmarked] at hafter
      cases hafter
  remembered := by
    intro hafter hash hhash
    rcases hcharged.escalates with ⟨-, hsame⟩ | ⟨-, -, hmarked, -⟩
    · rw [countP_snoc]
      rcases (hcharged.recorded hafter).2 with hold | hnew
      · rcases h.remembered (hsame ▸ hafter) hash (hold ▸ hhash) with hone | ⟨d, hd, hvalid, heq⟩
        · exact .inl (by omega)
        · exact .inr ⟨d, List.mem_append_left _ hd, hvalid, heq⟩
      · by_cases hrejected : result.rejected = true
        · rw [if_pos hrejected]
          exact .inl (by omega)
        · rw [hnew] at hhash
          refine .inr ⟨⟨result, before, after, job⟩, List.mem_append_right _ List.mem_cons_self, ?_, ?_⟩
          · exact eq_false_of_ne_true hrejected
          · exact (Option.some.inj hhash).symm
    · rw [hmarked] at hafter
      cases hafter
  sent := by
    intro d hd queued hjob
    rcases List.mem_append.mp hd with hd | hd
    · exact h.sent d hd queued hjob
    · rw [List.mem_singleton.mp hd] at hjob ⊢
      exact hcharged.sent hjob
  late := EveryEntry.snoc h.late (h.late_step hcharged)
  terminal := by
    refine EveryEntry.snoc h.terminal ?_
    intro hescalated hinvalid
    obtain ⟨e, he, hescalates⟩ := hescalated
    have hmarked : before.fallbackAttempted = true := by
      have hcount : 0 < deliveries.countP (·.escalates) := List.countP_pos_iff.mpr ⟨e, he, hescalates⟩
      rw [h.escalations] at hcount
      by_cases hmark : before.fallbackAttempted = true
      · exact hmark
      · rw [if_neg hmark] at hcount
        exact absurd hcount (Nat.lt_irrefl 0)
    exact hterminal (h.planned hmarked) hmarked hinvalid

end Step

/-! ## Every run -/

/-- As phase 1 leaves it: nothing was spent. -/
def Fresh (repoState : RepoState) : Prop :=
  repoState.attempts = {} ∧ repoState.fallbackAttempted = false ∧ repoState.lastPlanHash = none

section Run

variable {σ : Type} {host : Host σ} {settings : Settings} {systemPrompt : String}

theorem validateRepository_fresh (repo : RepositoryInfo) :
    Emits (validateRepository host settings repo) fun r _ => ∀ answer, r = .ok answer → Fresh answer.1 := by
  unfold validateRepository
  cases repo.operation with
  | pushOnly =>
    cases repo.pushSnapshot with
    | none => exact Emits.pure fun answer h => by cases h; exact ⟨rfl, rfl, rfl⟩
    | some snapshot => exact Emits.pure fun answer h => by cases h; exact ⟨rfl, rfl, rfl⟩
  | commitAndPush =>
    refine Emits.bind_outcome (processRepoValidationAndDiff_emits host repo.path settings) fun r events _ => ?_
    cases r with
    | ok validated => exact Emits.pure fun answer h => by cases h; exact ⟨rfl, rfl, rfl⟩
    | error err => exact Emits.pure fun answer h => by cases h; exact ⟨rfl, rfl, rfl⟩

theorem runDiscoveryAndValidationPhase_fresh {discovered : List RepositoryInfo} {repos : Repos} {jobs : List DelegatedJob}
    {world world' : Traced σ}
    (hrun : (runDiscoveryAndValidationPhase host settings systemPrompt discovered []).run world = (.ok (repos, jobs), world')) :
    repos.All Fresh := by
  have hvalidate : ∀ repo, Emits (validateRepository host settings repo) fun r events => ∀ trace : List Event, True →
      True ∧ ∀ answer, r = .ok answer → Fresh answer.1 :=
    fun repo => (validateRepository_fresh repo).conseq fun _ _ h _ _ => ⟨True.intro, h⟩
  have hphase := runDiscoveryAndValidationPhase_emits (P := fun _ => Fresh) (T := fun _ => True) systemPrompt
    (fun _ _ _ h => h) (fun _ _ h => h) hvalidate discovered
  obtain ⟨events, -, hall⟩ := hphase world
  exact (hall [] True.intro).2 (repos, jobs) (by rw [hrun])

theorem accounted_fresh (id : String) {repoState : RepoState} (h : Fresh repoState) :
    Accounted host settings id [] repoState := by
  obtain ⟨hattempts, hfallback, hhash⟩ := h
  have hleft : ∀ kind, repoState.left kind = MAX_ATTEMPTS_BY_KIND.get kind := by
    intro kind
    rw [RepoState.left, hattempts]
    cases kind <;> rfl
  refine ⟨?_, ?_, ?_, ?_, ?_, ?_, (fun d hd => by cases hd), EveryEntry.nil, EveryEntry.nil⟩
  · simp [RepoState.budget, hleft, hfallback, AttemptsByKind.get, MAX_ATTEMPTS_BY_KIND]
  · intro kind hkind
    rw [hleft]
    cases kind with
    | validation => exact absurd rfl hkind
    | structural => exact Nat.le_refl _
    | race => exact Nat.le_refl _
    | git => exact Nat.le_refl _
    | network => exact Nat.le_refl _
  · rw [hfallback]
    rfl
  · intro hmarked
    rw [hfallback] at hmarked
    cases hmarked
  · intro _
    rw [hattempts]
    exact Nat.le_refl _
  · intro _ hash hlast
    rw [hhash] at hlast
    cases hlast

/-- What was delivered for a repository accounts for its state, if it has one. -/
def AccountedFor (host : Host σ) (settings : Settings) (id : String) (deliveries : List Delivery) : Option RepoState → Prop
  | some repoState => Accounted host settings id deliveries repoState
  | none => deliveries = []

def Balanced (host : Host σ) (settings : Settings) (s : DeliveryState) : Prop :=
  ∀ id, AccountedFor host settings id (s.deliveries id) (s.repos.get id)

theorem deliveries_snoc (s : DeliveryState) (repos : Repos) (d : Delivery) (id : String) :
    DeliveryState.deliveries ⟨repos, s.ledger ++ [d]⟩ id = s.deliveries id ++ if d.result.id = id then [d] else [] := by
  rw [DeliveryState.deliveries, List.filter_append]
  by_cases h : d.result.id = id
  · rw [if_pos h, List.filter_cons_of_pos (by simpa using h)]
    rfl
  · rw [if_neg h, List.filter_cons_of_neg (by simpa using h)]
    rfl

theorem balanced_step {s t : DeliveryState} {result : CommitJobResult} (h : Balanced host settings s)
    (hstep : DeliveryStep host settings systemPrompt s result t) : Balanced host settings t := by
  cases hstep with
  | unknown hget => exact h
  | @handled before after job world world' hget hrun =>
    intro id
    have hid := h id
    rw [Repos.get_set, deliveries_snoc]
    by_cases heq : result.id = id
    · subst heq
      rw [hget] at hid
      rw [if_pos rfl, if_pos rfl]
      have hcharged := handleResult_charged host settings systemPrompt result.id before result world (after, job) (by rw [hrun])
      refine hid.step hcharged fun hcommit hfallback hinvalid => ?_
      exact handleResult_terminal host settings systemPrompt result.id hcommit hfallback hinvalid world (after, job) (by rw [hrun])
    · rw [if_neg heq, if_neg heq, List.append_nil]
      exact hid

theorem balanced_run {results : List CommitJobResult} {s : DeliveryState}
    (h : Run (deliveryMachine host settings systemPrompt) results s) : Balanced host settings s := by
  refine Run.invariant (I := Balanced host settings) ?_ (fun s result t hs hstep => balanced_step hs hstep) h
  intro s hinit id
  obtain ⟨hledger, discovered, jobs, world, world', hrun⟩ := hinit
  have hnone : s.deliveries id = [] := by
    rw [DeliveryState.deliveries, hledger]
    rfl
  cases hget : s.repos.get id with
  | none => exact hnone
  | some repoState =>
    rw [hnone]
    exact accounted_fresh id (runDiscoveryAndValidationPhase_fresh hrun id repoState hget)

/-- The bounds on the retries of one repository. -/
structure Bounded (host : Host σ) (settings : Settings) (id : String) (deliveries : List Delivery) : Prop where
  jobs : deliveries.countP (·.job.isSome) ≤ 9
  escalations : deliveries.countP (·.escalates) ≤ 1
  /-- The fallback model's turn goes to the fallback provider and model, every other job to
      the primary ones. -/
  sent : ∀ d ∈ deliveries, ∀ job, d.job = some job → ∃ kind, SentBy (d.settings settings) id kind job
  late : NoCollision host deliveries → EveryEntry (fun before d _ => LateEscalation before d) deliveries
  terminal : EveryEntry (fun before d _ => TerminalInvalid before d) deliveries
  kinds : ∀ kind, kind ≠ .validation → deliveries.countP (·.retries kind) ≤ 1

theorem Accounted.bounded {id : String} {deliveries : List Delivery} {repoState : RepoState}
    (h : Accounted host settings id deliveries repoState) : Bounded host settings id deliveries where
  jobs := Nat.le_trans (Nat.le_add_right _ _) h.budget
  escalations := by
    rw [h.escalations]
    split <;> decide
  sent := h.sent
  late := by
    intro hcollision before d rest hsplit
    refine h.late before d rest hsplit fun e he f hf => ?_
    have hmem : ∀ e ∈ before ++ [d], e ∈ deliveries := by
      intro e he
      rw [hsplit, List.append_cons]
      exact List.mem_append_left _ he
    exact hcollision e (hmem e he) f (hmem f hf)
  terminal := h.terminal
  kinds := fun kind hkind => Nat.le_trans (Nat.le_add_right _ _) (h.kinds kind hkind)

/-- However the results of a run come, the retries of each repository stay within bounds. -/
theorem retries_bounded {results : List CommitJobResult} {s : DeliveryState}
    (h : Run (deliveryMachine host settings systemPrompt) results s) (id : String) :
    Bounded host settings id (s.deliveries id) := by
  have hid := balanced_run h id
  cases hget : s.repos.get id with
  | some repoState =>
    rw [hget] at hid
    exact hid.bounded
  | none =>
    rw [hget] at hid
    rw [hid]
    have hfresh : Fresh ⟨"", .PENDING, none, none, none, none, none, none, {}, none, none, [], none, none, false⟩ := ⟨rfl, rfl, rfl⟩
    have haccounted : Accounted host settings id [] _ := accounted_fresh id hfresh
    exact haccounted.bounded

end Run

/-! ## A plan that never gets better -/

/-- The results delivered in turn, all in the world phase 1 left. -/
def deliverAll {σ : Type} (host : Host σ) (settings : Settings) (systemPrompt : String) (world : Traced σ) (s : DeliveryState) :
    List CommitJobResult → Option DeliveryState
  | [] => some s
  | result :: results => match s.repos.get result.id with
    | none => deliverAll host settings systemPrompt world s results
    | some before => match ((handleResult host settings systemPrompt result.id before result).run world).1 with
      | .ok (after, job) => deliverAll host settings systemPrompt world
          ⟨s.repos.set result.id after, s.ledger ++ [⟨result, before, after, job⟩]⟩ results
      | .error _ => none

theorem deliverAll_steps {σ : Type} {host : Host σ} {settings : Settings} {systemPrompt : String} {world : Traced σ}
    {s t : DeliveryState} {results : List CommitJobResult}
    (h : deliverAll host settings systemPrompt world s results = some t) :
    Steps (deliveryMachine host settings systemPrompt) s results t := by
  induction results generalizing s with
  | nil =>
    cases h
    exact .nil
  | cons result results ih =>
    unfold deliverAll at h
    cases hget : s.repos.get result.id with
    | none =>
      simp only [hget] at h
      exact (Steps.single (M := deliveryMachine host settings systemPrompt) (.unknown hget)).trans (ih h)
    | some before =>
      simp only [hget] at h
      cases hresult : (handleResult host settings systemPrompt result.id before result).run world with
      | mk r world' =>
        rw [hresult] at h
        cases r with
        | error message => cases h
        | ok answer =>
          exact (Steps.single (M := deliveryMachine host settings systemPrompt) (.handled hget hresult)).trans (ih h)

def fallbackSettings : Settings := { deskSettings with fallbackProvider := some "second", fallbackModel := some "larger" }

/-- `feat: Add a.`. -/
def capitalPlan : CommitPlan := ⟨⟨"feat", none, "Add a.", none, false⟩, ["a"]⟩

def stubbornStart : Option DeliveryState :=
  match ((runDiscoveryAndValidationPhase deskHost fallbackSettings "" [deskRepository] []).run ⟨⟨0, "diff", ""⟩, []⟩).1 with
  | .ok (repos, _) => some ⟨repos, []⟩
  | .error _ => none

def stubbornEnd : Option DeliveryState :=
  stubbornStart.bind fun s =>
    deliverAll deskHost fallbackSettings "" ⟨⟨0, "diff", ""⟩, []⟩ s (List.replicate 3 (.success "r" [capitalPlan]))

/-- The invalid plan comes three times: repaired once, escalated once, and then final. -/
theorem retries_bounded_stubborn : ∃ s : DeliveryState,
    (s.deliveries "r").map (fun d => (d.job.isSome, d.escalates, d.after.status)) =
      [(true, false, .RUNNING), (true, true, .RUNNING), (false, false, .FAILED)] ∧
    Bounded deskHost fallbackSettings "r" (s.deliveries "r") := by
  have hend : stubbornEnd.any (fun s =>
      (s.deliveries "r").map (fun d => (d.job.isSome, d.escalates, d.after.status)) ==
        [(true, false, .RUNNING), (true, true, .RUNNING), (false, false, .FAILED)]) = true := by
    decide +kernel
  obtain ⟨t, ht, hledger⟩ := exists_of_any hend
  obtain ⟨s, hs, hdelivered⟩ := Option.bind_eq_some_iff.mp ht
  have hinit : (deliveryMachine deskHost fallbackSettings "").init s := by
    unfold stubbornStart at hs
    split at hs
    · rename_i repos jobs hrun
      cases hs
      exact ⟨rfl, [deskRepository], jobs, _, _, Prod.ext hrun rfl⟩
    · cases hs
  exact ⟨t, beq_iff_eq.mp hledger, retries_bounded ⟨s, hinit, deliverAll_steps hdelivered⟩ "r"⟩

end GitCommitsPush.Publication
