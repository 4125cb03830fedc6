/-
  GitCommitsPush.Lib.Computed — machines whose next state is computed.

  `follow` runs the labels; a run that it makes is a run of the machine (`follow_steps`).
-/

import GitCommitsPush.Lib.Runs

namespace GitCommitsPush.Lib.Computed

open GitCommitsPush.Lib.Runs

variable {σ α : Type}

/-- The state after the labels, when each is a step. -/
def follow (advance : σ → α → Option σ) (s : σ) : List α → Option σ
  | [] => some s
  | label :: labels => (advance s label).bind fun t => follow advance t labels

theorem follow_steps {advance : σ → α → Option σ} {M : Machine σ α} (hM : ∀ {s : σ} {label : α} {t : σ}, advance s label = some t → M.step s label t)
    {s t : σ} {labels : List α} (h : follow advance s labels = some t) : Steps M s labels t := by
  induction labels generalizing s with
  | nil =>
    cases h
    exact .nil
  | cons label labels ih =>
    obtain ⟨u, hu, h⟩ := Option.bind_eq_some_iff.mp h
    have hfirst : Steps M s [label] u := .single (hM hu)
    exact hfirst.trans (ih h)

end GitCommitsPush.Lib.Computed
