/-
  GitCommitsPush.Publication.PlannedScanned — a planned diff was scanned, except when a
  retry finds another one staged.

  Phase 1 scans what it stages and records its hash. A retry stages files again and
  records the hash of what it then finds, without a scan. In a run where what a retry
  finds staged has been scanned before, every call of the publisher expects a scanned
  diff (`planned_diff_scanned`); `unscanned_replan` is a run where one does not.
-/

import GitCommitsPush.Publication.SuccessPushed

namespace GitCommitsPush.Publication

open GitCommitsPush.Lib.Effect
open GitCommitsPush.Lib.Runs
open GitCommitsPush.Lib.Trace (Emits)

section Scanned

variable {σ : Type} (host : Host σ)

/-- Every call of the publisher expects a diff scanned for its repository before. -/
def CallsScanned (trace : List Event) : Prop :=
  ∀ before repository hash after, trace = before ++ .executing repository hash :: after →
    ∃ diff, Event.scanned repository diff ∈ before ∧ host.sha256 diff = hash

/-- In the state before the hash is taken: what the repository shows staged has passed the
    scan. -/
def StagedScanned (s : RunState σ) (move : Move σ) : Prop :=
  ∀ id request found diff, move = .queue → s.retry = some (id, .restaged request found) →
    ((readRestaged host request.repoState.repository found).run s.world.world).1 = .ok diff →
    Event.scanned request.repoState.repository diff ∈ s.world.trace

variable {host}

theorem HashScanned.mono {trace : List Event} {repoState : RepoState} (h : HashScanned host trace repoState)
    (more : List Event) : HashScanned host (trace ++ more) repoState := by
  intro hcommits hash hhash
  obtain ⟨diff, hscanned, hdiff⟩ := h hcommits hash hhash
  exact ⟨diff, List.mem_append_left _ hscanned, hdiff⟩

/-- Calls noted after a trace are scanned when the trace has the scans. -/
theorem CallsScanned.append {trace events : List Event} (h : CallsScanned host trace)
    (hevents : ∀ repository hash, Event.executing repository hash ∈ events →
      ∃ diff, Event.scanned repository diff ∈ trace ∧ host.sha256 diff = hash) : CallsScanned host (trace ++ events) := by
  intro before repository hash after heq
  rcases List.append_eq_append_iff.mp heq with ⟨middle, rfl, hmiddle⟩ | ⟨middle, rfl, hmiddle⟩
  · have hmem : Event.executing repository hash ∈ events := by
      rw [hmiddle]
      exact List.mem_append_right _ List.mem_cons_self
    obtain ⟨diff, hscanned, hdiff⟩ := hevents repository hash hmem
    exact ⟨diff, List.mem_append_left _ hscanned, hdiff⟩
  · cases middle with
    | nil =>
      have hmem : Event.executing repository hash ∈ events := by
        rw [← List.nil_append events, ← hmiddle]
        exact List.mem_cons_self
      obtain ⟨diff, hscanned, hdiff⟩ := hevents repository hash hmem
      exact ⟨diff, by rwa [List.append_nil] at hscanned, hdiff⟩
    | cons event middle =>
      rw [List.cons_append, List.cons.injEq] at hmiddle
      rw [← hmiddle.1] at h
      exact h before repository hash middle rfl

theorem CallsScanned.append_scans {trace events : List Event} (h : CallsScanned host trace) (hevents : ∀ e ∈ events, e.IsScan) :
    CallsScanned host (trace ++ events) :=
  h.append fun _ _ hmem => (hevents _ hmem).elim

variable {settings : Settings} {systemPrompt : String}

theorem scanned_rule : RunRule host settings systemPrompt (StagedScanned host) (CallsScanned host) (HashScanned host) where
  nil := by
    intro before repository hash after heq
    cases before <;> cases heq
  mono := fun trace more s h => h.mono more
  running := fun trace s h => h
  validate := by
    intro repo
    refine (validateRepository_emits host settings repo).conseq ?_
    intro r events h trace htrace
    refine ⟨htrace.append_scans h.1, fun answer ha hcommits hash hhash => ?_⟩
    obtain ⟨diff, hscanned, hdiff⟩ := (h.2 answer ha).2.2 hcommits hash hhash
    exact ⟨diff, List.mem_append_right _ hscanned, hdiff⟩
  attempt := by
    intro s result repoState _ _ _ htrace hscanned r world hrun
    obtain ⟨events, hworld, hcalls, heffect⟩ :=
      attemptResult_emits host settings systemPrompt result.id repoState result s.world
    rw [hrun] at hworld heffect
    rw [show world.trace = s.world.trace ++ events from hworld]
    by_cases hpush : repoState.operation = some .pushOnly
    · rw [if_pos hpush] at hcalls
      refine ⟨htrace.append_scans hcalls, fun attempt ha hcommits => ?_⟩
      have h := heffect attempt ha
      unfold AttemptEffect at h
      rw [if_pos hpush] at h
      obtain ⟨state, rfl, hstate⟩ := h
      exact absurd hstate hcommits
    · rw [if_neg hpush] at hcalls
      refine ⟨htrace.append fun repository hash hmem => ?_, fun attempt ha => ?_⟩
      · obtain ⟨rfl, hhash⟩ := hcalls repository hash hmem
        exact hscanned hpush hash hhash
      · have h := heffect attempt ha
        unfold AttemptEffect at h
        rw [if_neg hpush] at h
        intro _ hash hhash
        rw [h.repository]
        exact hscanned.mono events hpush hash (h.diffHash ▸ hhash)
  finish := by
    intro s id retry hcond hretry hready hscanned repoState job hrun
    obtain ⟨hfinished, hdiff⟩ := finishRetry_finished host settings systemPrompt id hready hrun
    have hrepository : repoState.repository = retry.request.repoState.repository := congrArg (·.1) hfinished.books
    have hoperation : repoState.operation = retry.request.repoState.operation := congrArg (·.2.1) hfinished.books
    intro hcommits hash hhash
    rw [hrepository]
    rcases hdiff with hsame | ⟨request, found, actualDiff, rfl, hread, hnew⟩
    · exact hscanned (hoperation ▸ hcommits) hash (hsame ▸ hhash)
    · rw [hnew, Option.some.injEq] at hhash
      exact ⟨actualDiff, hcond id request found actualDiff rfl hretry hread, hhash⟩

/-- In a run whose retries find scanned diffs staged, every call of the publisher expects
    the hash of a diff scanned for that repository before. -/
theorem planned_diff_scanned {moves : List (Move σ)} {s : RunState σ}
    (h : Run ((runMachine host settings systemPrompt).guarded (StagedScanned host)) moves s) {before after : List Event}
    {repository hash : String} (htrace : s.world.trace = before ++ .executing repository hash :: after) :
    ∃ diff, Event.scanned repository diff ∈ before ∧ host.sha256 diff = hash :=
  (scanned_rule.run h).trace before repository hash after htrace

end Scanned

/-! ## Two races -/

/-- Another diff is staged while the planner works, and is planned again as it is. -/
def unscannedMoves : List (Move Desk) :=
  [.discover [deskRepository], .edit ⟨0, "secret", ""⟩, .handle (.success "r" [deskPlan "a"]), .restage, .queue, .delegate,
    .handle (.success "r" [deskPlan "b"])]

/-- The second call of the publisher expects a diff that was never scanned. -/
theorem unscanned_replan : ∃ moves s before after repository hash, Run (runMachine deskHost deskSettings "") moves s ∧
    s.world.trace = before ++ .executing repository hash :: after ∧
    ¬ ∃ diff, Event.scanned repository diff ∈ before ∧ deskHost.sha256 diff = hash := by
  have hrun : (deskRun (fun _ _ => true) unscannedMoves).any (fun t => t.world.trace ==
      [.scanned "/r" "diff", .executing "/r" "sha256:diff", .executing "/r" "sha256:secret", .committed "/r" "c1",
        .pushed "/r"]) = true := by
    decide +kernel
  obtain ⟨t, ht, hend⟩ := exists_of_any hrun
  have hsteps := (deskRun_run (fun _ _ _ => True.intro) ht).of_guarded
  refine ⟨_, t, [.scanned "/r" "diff", .executing "/r" "sha256:diff"], [.committed "/r" "c1", .pushed "/r"], "/r",
    "sha256:secret", hsteps, beq_iff_eq.mp hend, ?_⟩
  intro hscanned
  obtain ⟨diff, hmem, hdiff⟩ := hscanned
  simp at hmem
  subst hmem
  exact absurd hdiff (by decide)

/-- The condition of `StagedScanned`, as a check. -/
def deskScanned (s : RunState Desk) (move : Move Desk) : Bool :=
  match move, s.retry with
  | .queue, some (_, .restaged request found) =>
    match ((readRestaged deskHost request.repoState.repository found).run s.world.world).1 with
    | .ok diff => s.world.trace.contains (.scanned request.repoState.repository diff)
    | .error _ => true
  | _, _ => true

/-- The diff is gone when the publisher looks and back when the retry does. -/
theorem planned_diff_scanned_desk : ∃ diff, Event.scanned "/r" diff ∈
      [Event.scanned "/r" "diff", .executing "/r" "sha256:diff"] ∧ deskHost.sha256 diff = "sha256:diff" := by
  have hrun : (deskRun deskScanned [.discover [deskRepository], .edit ⟨0, "other", ""⟩,
      .handle (.success "r" [deskPlan "a"]), .edit ⟨0, "diff", ""⟩, .restage, .queue, .delegate,
      .handle (.success "r" [deskPlan "b"])]).any (fun t => t.world.trace ==
      [.scanned "/r" "diff", .executing "/r" "sha256:diff", .executing "/r" "sha256:diff", .committed "/r" "c1",
        .pushed "/r"]) = true := by
    decide +kernel
  obtain ⟨t, ht, hend⟩ := exists_of_any hrun
  have hguarded : ∀ s move, deskScanned s move = true → StagedScanned deskHost s move := by
    intro s move hallowed id request found diff hmove hretry hread
    subst hmove
    simp only [deskScanned, hretry, hread] at hallowed
    exact List.contains_iff_mem.mp hallowed
  have htrace : t.world.trace = [.scanned "/r" "diff", .executing "/r" "sha256:diff"] ++
      .executing "/r" "sha256:diff" :: [.committed "/r" "c1", .pushed "/r"] := beq_iff_eq.mp hend
  exact planned_diff_scanned (deskRun_run hguarded ht) htrace

end GitCommitsPush.Publication
