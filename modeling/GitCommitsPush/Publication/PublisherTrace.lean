/-
  GitCommitsPush.Publication.PublisherTrace — what `executeMultiCommitAndPush` notes.

  The call notes that it was made, then a commit for each id it reports, then the push
  that ends it (`executeMultiCommitAndPush_emits`). However it ends, every commit it
  reports has been created.
-/

import GitCommitsPush.Publication.Publisher

namespace GitCommitsPush.Publication

open GitCommitsPush.Lib.Effect
open GitCommitsPush.Lib.JsText
open GitCommitsPush.Lib.Trace (lifted lifted_eq_ok run_lifted note Emits)

/-- The commits were created in the repository. -/
def Landed (repository : String) (events : List Event) (shas : List CommittedSha) : Prop :=
  ∀ c ∈ shas, Event.committed repository c.sha ∈ events

theorem Landed.mono {repository : String} {events events' : List Event} {shas : List CommittedSha}
    (h : Landed repository events shas) (hsub : ∀ e ∈ events, e ∈ events') : Landed repository events' shas :=
  fun c hc => hsub _ (h c hc)

/-- The commits an error reports. -/
def PublishError.committedShas : PublishError → List CommittedSha
  | .partialCommit _ context => context.committedShas
  | .commitPlan _ _ _ (some context) => context.committedShas
  | .postCommitPush _ context => context.committedShas
  | _ => []

def PublishError.isEmptyPlans : PublishError → Bool
  | .commitPlan _ .emptyPlans _ _ => true
  | _ => false

/-- Commits of the repository, and pushes. -/
def Publishing (repository : String) (events : List Event) : Prop :=
  ∀ e ∈ events, (∃ sha, e = .committed repository sha) ∨ e = .pushed repository

section

variable {σ : Type} (host : Host σ) (repoPath : String)

theorem commitPlan_emits (i : Nat) (plan : CommitPlan) : Emits (commitPlan host repoPath i plan) fun r events =>
    match r with
    | .ok committed => events = [.committed repoPath committed.sha]
    | .error _ => events = [] := by
  unfold commitPlan
  refine Emits.bind_lifted (fun _ => ?_) fun _ => rfl
  refine Emits.bind_lifted (fun _ => ?_) fun _ => rfl
  refine Emits.bind_lifted (fun _ => ?_) fun _ => rfl
  refine Emits.bind_lifted (fun stdout => ?_) fun _ => rfl
  refine Emits.bind_note ?_
  exact Emits.pure rfl

/-- A plan is committed in four steps: its files are staged, its message written, the commit
    created and its id read. -/
theorem commitPlan_ok {i : Nat} {plan : CommitPlan} {committed : CommittedSha} {w w' : Traced σ}
    (h : (commitPlan host repoPath i plan).run w = (.ok committed, w')) :
    ∃ staged w₁ message w₂ created w₃ stdout,
      (host.execFileGit repoPath (["--literal-pathspecs", "add", "--"] ++ plan.files) []).run w.world = (.ok staged, w₁) ∧
      (host.writeMessage i (formatConventionalCommit plan.commit)).run w₁ = (.ok message, w₂) ∧
      (host.execFileGit repoPath ["commit", "--file", message, "--no-verify"] []).run w₂ = (.ok created, w₃) ∧
      (host.execSync repoPath "git rev-parse HEAD").run w₃ = (.ok stdout, w'.world) ∧
      committed = ⟨trimString stdout, plan.files⟩ := by
  have hargs : ∀ {args : List String} {out : String} {v v' : σ}, (host.gitExecArgs args repoPath).run v = (.ok out, v') →
      ∃ raw, (host.execFileGit repoPath args []).run v = (.ok raw, v') := by
    intro args out v v' hrun
    obtain ⟨raw, v₁, hraw, hrest⟩ := Action.run_bind_eq_ok hrun
    cases hrest
    exact ⟨raw, hraw⟩
  unfold commitPlan at h
  obtain ⟨_, w₁, hadd, h⟩ := Action.run_bind_eq_ok h
  obtain ⟨message, w₂, hmessage, h⟩ := Action.run_bind_eq_ok h
  obtain ⟨_, w₃, hcommit, h⟩ := Action.run_bind_eq_ok h
  obtain ⟨stdout, w₄, hread, h⟩ := Action.run_bind_eq_ok h
  have hread := lifted_eq_ok hread
  cases h
  obtain ⟨staged, hadd⟩ := hargs (lifted_eq_ok hadd)
  obtain ⟨created, hcommit⟩ := hargs (lifted_eq_ok hcommit)
  exact ⟨staged, w₁.world, message, w₂.world, created, w₃.world, stdout, hadd, lifted_eq_ok hmessage, hcommit,
    hread, rfl⟩

/-- The error of a failed plan reports the commits landed before it. -/
theorem commitFailure_shas {plans : List CommitPlan} {originalHead : String} {i : Nat} {plan : CommitPlan}
    {committedShas : List CommittedSha} {commitErr : ExecError} {w : σ} {error : PublishError}
    (h : ((commitFailure host repoPath plans originalHead i plan committedShas commitErr).run w).1 = .ok error) :
    error.committedShas = committedShas ∧ error.isEmptyPlans = false := by
  have hspec : Action.Triple (fun _ => True)
      (commitFailure host repoPath plans originalHead i plan committedShas commitErr)
      fun r _ => ∀ e, r = .ok e → e.committedShas = committedShas ∧ e.isEmptyPlans = false := by
    unfold commitFailure
    refine Action.Triple.bind (Q := fun _ _ => True) Action.Triple.trivial ?_ fun _ _ _ _ h => by cases h
    intro _
    refine Action.Triple.bind (Q := fun _ _ => True) Action.Triple.trivial ?_ fun _ _ _ _ h => by cases h
    intro fileState
    apply Action.Triple.ite
    · intro _
      exact Action.Triple.pure fun _ _ e he => by cases he; exact ⟨rfl, rfl⟩
    intro _
    apply Action.Triple.ite
    · intro _
      exact Action.Triple.pure fun _ _ e he => by cases he; exact ⟨rfl, rfl⟩
    · intro _
      exact Action.Triple.pure fun _ _ e he => by cases he; exact ⟨rfl, rfl⟩
  exact hspec w True.intro error h

/-- The loop notes commits only; what it reports, it created, or had before. -/
theorem commitPlans_emits (plans : List CommitPlan) (originalHead : String) (rest : List CommitPlan) (i : Nat)
    (committedShas : List CommittedSha) :
    Emits (commitPlans host repoPath plans originalHead i committedShas rest) fun r events =>
      (∀ e ∈ events, ∃ sha, e = Event.committed repoPath sha) ∧ match r with
        | .ok shas => ∃ new, shas = committedShas ++ new ∧ new.length = rest.length ∧ Landed repoPath events new
        | .error error => ∃ new, error.committedShas = new ∧ error.isEmptyPlans = false ∧
            ∀ c ∈ new, c ∈ committedShas ∨ Event.committed repoPath c.sha ∈ events := by
  induction rest generalizing i committedShas with
  | nil =>
    unfold commitPlans
    exact Emits.pure ⟨(fun e he => by cases he), [], by simp, rfl, fun c hc => by cases hc⟩
  | cons plan rest ih =>
    unfold commitPlans
    refine Emits.bind_outcome (commitPlan_emits host repoPath i plan) fun committed events hevents => ?_
    cases committed with
    | ok committed =>
      simp only at hevents
      subst hevents
      refine Emits.bind_outcome (Emits.lifted (Q := fun _ events => events = []) fun _ => rfl) fun _ events h => ?_
      subst h
      refine (ih (i + 1) (committedShas ++ [committed])).conseq ?_
      intro r events hr
      obtain ⟨hcommits, hr⟩ := hr
      refine ⟨fun e he => ?_, ?_⟩
      · rcases List.mem_cons.mp he with rfl | he
        · exact ⟨committed.sha, rfl⟩
        · exact hcommits e he
      cases r with
      | ok shas =>
        obtain ⟨new, rfl, hlen, hnew⟩ := hr
        refine ⟨committed :: new, by simp, by simp [hlen], ?_⟩
        intro c hc
        rcases List.mem_cons.mp hc with rfl | hc
        · exact List.mem_cons_self
        · exact List.mem_cons_of_mem _ (hnew c hc)
      | error error =>
        obtain ⟨new, rfl, hkind, hnew⟩ := hr
        refine ⟨_, rfl, hkind, fun c hc => ?_⟩
        rcases hnew c hc with h | h
        · rcases List.mem_append.mp h with h | h
          · exact .inl h
          · rw [List.mem_singleton.mp h]
            exact .inr List.mem_cons_self
        · exact .inr (List.mem_cons_of_mem _ h)
    | error commitErr =>
      simp only at hevents
      subst hevents
      refine Emits.bind_outcome (Emits.lifted (Q := fun r events => events = [] ∧
        ∀ e, r = .ok e → e.committedShas = committedShas ∧ e.isEmptyPlans = false)
        fun w => ⟨rfl, fun e he => commitFailure_shas host repoPath he⟩) fun failure events h => ?_
      obtain ⟨rfl, h⟩ := h
      cases failure with
      | ok error =>
        refine Emits.throw ⟨(fun e he => by cases he), _, rfl, (h error rfl).2, fun c hc => .inl ?_⟩
        rwa [(h error rfl).1] at hc
      | error error => exact Emits.throw ⟨(fun e he => by cases he), [], rfl, rfl, fun c hc => by cases hc⟩

/-- A property of the commits landed and the world that every plan, every reset and every
    cleanup keep holds when the loop ends, or nothing is reported. -/
theorem commitPlans_rule (J : List CommittedSha → Traced σ → Prop)
    (hcommit : ∀ i plan landed w committed w', J landed w → (commitPlan host repoPath i plan).run w = (.ok committed, w') →
      J (landed ++ [committed]) w')
    (hfailed : ∀ i plan landed w e w', J landed w → (commitPlan host repoPath i plan).run w = (.error e, w') → J landed w')
    (hreset : ∀ landed, Action.Keeps (J landed) (lifted (host.gitExec "reset HEAD" repoPath)))
    (hcleanup : ∀ plans originalHead i plan landed e,
      Action.Keeps (J landed) (lifted (commitFailure host repoPath plans originalHead i plan landed e)))
    (plans : List CommitPlan) (originalHead : String) (rest : List CommitPlan) (i : Nat) (landed : List CommittedSha) :
    Action.Triple (J landed) (commitPlans host repoPath plans originalHead i landed rest) fun r w =>
      (∀ shas, r = .ok shas → J shas w ∧ shas.map (·.files) = landed.map (·.files) ++ rest.map (·.files)) ∧
        ∀ error, r = .error error → error.isEmptyPlans = false ∧ (error.committedShas = [] ∨ J error.committedShas w) := by
  induction rest generalizing i landed with
  | nil =>
    refine Action.Triple.pure fun w hw => ⟨fun shas h => ?_, fun error h => by cases h⟩
    cases h
    exact ⟨hw, (List.append_nil _).symm⟩
  | cons plan rest ih =>
    intro w hw
    unfold commitPlans
    rw [Action.run_bind, Action.run_outcome]
    cases hplan : (commitPlan host repoPath i plan).run w with
    | mk r w₁ =>
      cases r with
      | ok committed =>
        obtain ⟨_, _, _, _, _, _, _, _, _, _, _, hfiles⟩ := commitPlan_ok host repoPath hplan
        have hrest := ih (i + 1) (landed ++ [committed]) _ (hreset _ w₁ (hcommit i plan landed w committed w₁ hw hplan))
        refine ⟨fun shas h => ?_, hrest.2⟩
        obtain ⟨hJ, hmap⟩ := hrest.1 shas h
        refine ⟨hJ, ?_⟩
        rw [hmap, hfiles]
        simp
      | error commitErr =>
        have hJ := hfailed i plan landed w commitErr w₁ hw hplan
        have hcleaned := hcleanup plans originalHead i plan landed commitErr w₁ hJ
        dsimp only
        rw [Action.run_bind, Action.run_outcome]
        cases hfailure : (lifted (commitFailure host repoPath plans originalHead i plan landed commitErr)).run w₁ with
        | mk r w₂ =>
          rw [hfailure] at hcleaned
          cases r with
          | error e => exact ⟨fun shas h => (by cases h), fun error h => by cases h; exact ⟨rfl, .inl rfl⟩⟩
          | ok error =>
            have hshas : ((commitFailure host repoPath plans originalHead i plan landed commitErr).run w₁.world).1 =
                .ok error := congrArg Prod.fst hfailure
            obtain ⟨hreported, hkind⟩ := commitFailure_shas host repoPath hshas
            refine ⟨fun shas h => (by cases h), fun other h => ?_⟩
            cases h
            exact ⟨hkind, .inr (hreported ▸ hcleaned)⟩

/-- How a publication ends. -/
def PublishOutcome (plans : List CommitPlan) (events : List Event) : Except PublishError Published → Prop
  | .ok published => published.committedShas ≠ [] ∧
      ∃ commits, events = commits ++ [.pushed repoPath] ∧ Landed repoPath commits published.committedShas
  | .error error => Landed repoPath events error.committedShas ∧
      (error.isEmptyPlans = true → plans = [] ∧ error.committedShas = [])

/-- Nothing was noted, and an error reports nothing. -/
def Quiet {α : Type} (r : Except PublishError α) (events : List Event) : Prop :=
  events = [] ∧ ∀ error, r = .error error → error.committedShas = [] ∧ error.isEmptyPlans = false

theorem unwrapped_run {α : Type} (x : Action σ ExecError α) (w : σ) (trace : List Event) :
    (unwrapped x).run ⟨w, trace⟩ = match x.run w with
      | (.ok a, w') => (.ok a, ⟨w', trace⟩)
      | (.error error, w') => (.error (.other error.message), ⟨w', trace⟩) := by
  unfold unwrapped
  rw [Action.run_attempt, run_lifted]
  cases x.run w with
  | mk r w' => cases r <;> rfl

theorem unwrapped_quiet {α : Type} (x : Action σ ExecError α) : Emits (unwrapped x) Quiet := by
  unfold unwrapped
  refine Emits.attempt (Emits.lifted (Q := fun _ events => events = []) fun _ => rfl) ?_ ?_
  · intro a events h
    exact ⟨h, fun e he => by cases he⟩
  · intro e events h
    subst h
    exact Emits.throw ⟨rfl, fun e he => by cases he; exact ⟨rfl, rfl⟩⟩

theorem bind_quiet {α β : Type} {x : Action (Traced σ) PublishError α} {f : α → Action (Traced σ) PublishError β}
    {R : Except PublishError β → List Event → Prop} (hx : Emits x Quiet) (hok : ∀ a, Emits (f a) R)
    (herr : ∀ error, error.committedShas = [] → error.isEmptyPlans = false → R (.error error) []) :
    Emits (x >>= f) R := by
  refine Emits.bind hx ?_ ?_
  · intro a events h
    obtain ⟨rfl, -⟩ := h
    exact hok a
  · intro error events h
    obtain ⟨rfl, h⟩ := h
    exact herr error (h error rfl).1 (h error rfl).2

theorem guardDiffHash_quiet (expectedDiffHash : String) : Emits (guardDiffHash host repoPath expectedDiffHash) Quiet := by
  unfold guardDiffHash
  apply Emits.ite
  · intro _
    exact Emits.pure ⟨rfl, fun e he => by cases he⟩
  intro _
  refine bind_quiet (unwrapped_quiet _) ?_ ?_
  · intro diff
    apply Emits.ite
    · intro _
      exact Emits.throw ⟨rfl, fun e he => by cases he; exact ⟨rfl, rfl⟩⟩
    · intro _
      exact Emits.pure ⟨rfl, fun e he => by cases he⟩
  · intro error hshas hkind
    exact ⟨rfl, fun e he => by cases he; exact ⟨hshas, hkind⟩⟩

theorem pushCommits_emits (settings : Settings) (committedShas : List CommittedSha) (originalHead : String) :
    Emits (pushCommits host repoPath settings committedShas originalHead) fun r events => match r with
      | .ok published => published.committedShas = committedShas ∧ events = [.pushed repoPath]
      | .error error => error.committedShas = committedShas ∧ error.isEmptyPlans = false ∧ events = [] := by
  unfold pushCommits
  refine Emits.bind (Q := fun r events => events = [] ∧
    ∀ error, r = .error error → error.committedShas = committedShas ∧ error.isEmptyPlans = false) ?_ ?_ ?_
  · refine Emits.attempt (Emits.lifted (Q := fun _ events => events = []) fun _ => rfl) ?_ ?_
    · intro a events h
      exact ⟨h, fun e he => by cases he⟩
    · intro e events h
      subst h
      exact Emits.throw ⟨rfl, fun e he => by cases he; exact ⟨rfl, rfl⟩⟩
  · intro pushRetryCount events h
    obtain ⟨rfl, -⟩ := h
    refine Emits.bind_note ?_
    exact Emits.pure ⟨rfl, rfl⟩
  · intro e events h
    obtain ⟨hshas, hkind⟩ := h.2 e rfl
    exact ⟨hshas, hkind, h.1⟩

theorem executeMultiCommitAndPush_emits (plans : List CommitPlan) (expectedDiffHash : String) (settings : Settings) :
    Emits (executeMultiCommitAndPush host repoPath plans expectedDiffHash settings) fun r events =>
      ∃ more, events = .executing repoPath expectedDiffHash :: more ∧ Publishing repoPath more ∧
        PublishOutcome repoPath plans more r := by
  have hthrow : ∀ {error : PublishError} {more : List Event}, more = [] → error.committedShas = [] →
      (error.isEmptyPlans = true → plans = []) →
      Publishing repoPath more ∧ PublishOutcome repoPath plans more (.error error) := by
    intro error more hmore hshas hkind
    subst hmore
    refine ⟨(fun e he => by cases he), (fun c hc => ?_), fun h => ⟨hkind h, hshas⟩⟩
    rw [hshas] at hc
    cases hc
  unfold executeMultiCommitAndPush
  refine Emits.bind_note ?_
  refine Emits.conseq (Q := fun r more => Publishing repoPath more ∧ PublishOutcome repoPath plans more r) ?_
    fun r more h => ⟨more, rfl, h⟩
  apply Emits.ite
  · intro hempty
    exact Emits.throw (hthrow rfl rfl fun _ => List.isEmpty_iff.mp hempty)
  intro hempty
  split
  · exact Emits.throw (hthrow rfl rfl fun h => by cases h)
  have hquiet : ∀ error : PublishError, error.committedShas = [] → error.isEmptyPlans = false →
      Publishing repoPath [] ∧ PublishOutcome repoPath plans [] (.error error) :=
    fun error hshas hkind => hthrow rfl hshas fun h => by rw [hkind] at h; cases h
  refine bind_quiet (guardDiffHash_quiet host repoPath expectedDiffHash) (fun _ => ?_) hquiet
  refine bind_quiet (unwrapped_quiet _) (fun head => ?_) hquiet
  refine bind_quiet (unwrapped_quiet _) (fun _ => ?_) hquiet
  refine Emits.bind (commitPlans_emits host repoPath plans _ plans 0 []) ?_ ?_
  · intro shas commits h
    obtain ⟨hcommits, new, rfl, hlen, hnew⟩ := h
    refine (pushCommits_emits host repoPath settings _ _).conseq fun r events hr => ?_
    cases r with
    | ok published =>
      obtain ⟨hshas, rfl⟩ := hr
      refine ⟨fun e he => ?_, fun h => ?_, commits, rfl, by rwa [hshas]⟩
      · rcases List.mem_append.mp he with he | he
        · exact .inl (hcommits e he)
        · exact .inr (List.mem_singleton.mp he)
      · rw [hshas] at h
        rw [h] at hlen
        exact hempty (List.isEmpty_iff.mpr (List.length_eq_zero_iff.mp hlen.symm))
    | error error =>
      obtain ⟨hshas, hkind, rfl⟩ := hr
      rw [List.append_nil]
      refine ⟨fun e he => .inl (hcommits e he), by rwa [hshas], fun h => ?_⟩
      rw [hkind] at h
      cases h
  · intro error events h
    obtain ⟨hcommits, new, rfl, hkind, hnew⟩ := h
    refine ⟨fun e he => .inl (hcommits e he), fun c hc => ?_, fun h => ?_⟩
    · exact (hnew c hc).resolve_left fun h => by cases h
    · rw [hkind] at h
      cases h

end

end GitCommitsPush.Publication
