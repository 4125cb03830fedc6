/-
  GitCommitsPush.Lib.Runs — labelled transition systems and their runs.

  A machine is a set of initial states and a labelled step relation. A run keeps the
  list of the labels it took, oldest first, so that a property may speak of what
  happened before what. The rules:
  - `Run.invariant`: what holds initially and is kept by a step holds after every run.
  - `Run.invariant_of`: the same, over a property already known of every run.
  - `Run.traceInvariant`: the same for a property of the labels and the state.
  - `Run.stable`: what a step never undoes still holds when a run is extended.
  - `Run.split`: a run whose labels are cut in two passes through the state between.
-/

namespace GitCommitsPush.Lib.Runs

variable {σ α : Type}

structure Machine (σ α : Type) where
  init : σ → Prop
  step : σ → α → σ → Prop

/-- A run of `M` from `s`: the labels taken, oldest first, and the state reached. -/
inductive Steps (M : Machine σ α) (s : σ) : List α → σ → Prop
  | nil : Steps M s [] s
  | snoc {tr : List α} {t u : σ} {a : α} : Steps M s tr t → M.step t a u → Steps M s (tr ++ [a]) u

/-- A run from an initial state. -/
def Run (M : Machine σ α) (tr : List α) (t : σ) : Prop := ∃ s, M.init s ∧ Steps M s tr t

/-- The runs of `M` whose every step is taken where `c` allows it. -/
def Machine.guarded (M : Machine σ α) (c : σ → α → Prop) : Machine σ α where
  init := M.init
  step s a t := c s a ∧ M.step s a t

variable {M : Machine σ α}

theorem Run.start {s : σ} (h : M.init s) : Run M [] s := ⟨s, h, .nil⟩

theorem Run.snoc {tr : List α} {t u : σ} {a : α} (h : Run M tr t) (hs : M.step t a u) : Run M (tr ++ [a]) u := by
  obtain ⟨s, hi, hr⟩ := h
  exact ⟨s, hi, .snoc hr hs⟩

theorem Run.of_guarded {c : σ → α → Prop} {tr : List α} {t : σ} (h : Run (M.guarded c) tr t) : Run M tr t := by
  obtain ⟨s, hi, hr⟩ := h
  refine ⟨s, hi, ?_⟩
  induction hr with
  | nil => exact .nil
  | snoc _ hstep ih => exact .snoc ih hstep.2

/-- Induction over runs, one case per step taken last. -/
theorem Run.traceInvariant {P : List α → σ → Prop} (h0 : ∀ s, M.init s → P [] s)
    (hs : ∀ tr t a u, Run M tr t → P tr t → M.step t a u → P (tr ++ [a]) u) {tr : List α} {t : σ} (h : Run M tr t) :
    P tr t := by
  obtain ⟨s, hi, hr⟩ := h
  induction hr with
  | nil => exact h0 s hi
  | snoc hr hstep ih => exact hs _ _ _ _ ⟨s, hi, hr⟩ ih hstep

theorem Run.invariant {I : σ → Prop} (h0 : ∀ s, M.init s → I s) (hs : ∀ t a u, I t → M.step t a u → I u)
    {tr : List α} {t : σ} (h : Run M tr t) : I t :=
  Run.traceInvariant (P := fun _ s => I s) h0 (fun _ t a u _ hi hstep => hs t a u hi hstep) h

/-- An invariant whose step may use another property of every run. -/
theorem Run.invariant_of {I J : σ → Prop} (hJ : ∀ tr t, Run M tr t → J t) (h0 : ∀ s, M.init s → I s)
    (hs : ∀ t a u, J t → I t → M.step t a u → I u) {tr : List α} {t : σ} (h : Run M tr t) : I t :=
  Run.traceInvariant (P := fun _ s => I s) h0
    (fun tr t a u hr hi hstep => hs t a u (hJ tr t hr) hi hstep) h

theorem Steps.split {s t : σ} {tr₁ tr₂ : List α} (h : Steps M s (tr₁ ++ tr₂) t) :
    ∃ u, Steps M s tr₁ u ∧ Steps M u tr₂ t := by
  generalize he : tr₁ ++ tr₂ = tr at h
  induction h generalizing tr₂ with
  | nil =>
    obtain ⟨rfl, rfl⟩ := List.append_eq_nil_iff.mp he
    exact ⟨s, .nil, .nil⟩
  | @snoc tr t u a hr hstep ih =>
    rcases List.eq_nil_or_concat tr₂ with rfl | ⟨tr₂, b, rfl⟩
    · rw [List.append_nil] at he
      exact ⟨u, he ▸ .snoc hr hstep, .nil⟩
    · rw [List.concat_eq_append, ← List.append_assoc] at he
      obtain ⟨he, hb⟩ := List.append_inj' he rfl
      obtain ⟨v, h1, h2⟩ := ih he
      cases hb
      exact ⟨v, h1, by rw [List.concat_eq_append]; exact .snoc h2 hstep⟩

theorem Steps.trans {s t u : σ} {tr₁ tr₂ : List α} (h₁ : Steps M s tr₁ t) (h₂ : Steps M t tr₂ u) :
    Steps M s (tr₁ ++ tr₂) u := by
  induction h₂ with
  | nil => rwa [List.append_nil]
  | snoc _ hstep ih => rw [← List.append_assoc]; exact .snoc ih hstep

theorem Steps.single {s t : σ} {a : α} (h : M.step s a t) : Steps M s [a] t := .snoc .nil h

/-- What one step keeps, the rest of the run keeps. -/
theorem Steps.stable {I : σ → Prop} (hs : ∀ t a u, I t → M.step t a u → I u) {s t : σ} {tr : List α}
    (h : Steps M s tr t) (hi : I s) : I t := by
  induction h with
  | nil => exact hi
  | snoc _ hstep ih => exact hs _ _ _ ih hstep

end GitCommitsPush.Lib.Runs
