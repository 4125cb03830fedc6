/-
  GitCommitsPush.Lib.Sharing — invariants of parties and of what they share.

  `Held S P Q`: `S` holds of the shared state, `P` of each party beside it and `Q` of any two
  parties. `Keeps` says what one move has to keep: of the mover, of the shared state, of a party
  that only looks on, and of the two together. A run keeps what its moves keep (`Keeps.steps`).
-/

import GitCommitsPush.Lib.Interleaving

namespace GitCommitsPush.Lib.Sharing

open GitCommitsPush.Lib.Interleaving
open GitCommitsPush.Lib.Runs

variable {σ α β : Type} {move : σ → α → β → σ → α → Prop} {S : σ → Prop} {P : σ → α → Prop} {Q : α → α → Prop}

structure Held (S : σ → Prop) (P : σ → α → Prop) (Q : α → α → Prop) (s : Parties σ α) : Prop where
  shared : S s.shared
  each : ∀ (i : Nat) (member : α), s.members[i]? = some member → P s.shared member
  apart : ∀ (i j : Nat) (a b : α), i ≠ j → s.members[i]? = some a → s.members[j]? = some b → Q a b

structure Keeps (move : σ → α → β → σ → α → Prop) (S : σ → Prop) (P : σ → α → Prop) (Q : α → α → Prop) : Prop where
  symm : ∀ {a b}, Q a b → Q b a
  mover : ∀ {shared member answer shared' member'}, S shared → P shared member → move shared member answer shared' member' →
    S shared' ∧ P shared' member'
  other : ∀ {shared member answer shared' member' other}, S shared → P shared member → P shared other → Q member other →
    move shared member answer shared' member' → P shared' other ∧ Q member' other

/-- One move keeps what the parties hold. -/
theorem Keeps.step (start : α → Prop) (h : Keeps move S P Q) {s s' : Parties σ α} {label : Nat × β} (hs : Held S P Q s)
    (hstep : (interleaving start move).step s label s') : Held S P Q s' := by
  obtain ⟨member, shared', member', hget, hmove, rfl⟩ := hstep
  have hmember := hs.each label.1 member hget
  have hothers : ∀ (i : Nat) (other : α), label.1 ≠ i → s.members[i]? = some other → P shared' other ∧ Q member' other :=
    fun i other hi hother => h.other hs.shared hmember (hs.each i other hother) (hs.apart label.1 i member other hi hget hother) hmove
  refine ⟨(h.mover hs.shared hmember hmove).1, fun i found hfound => ?_, fun i j a b hij ha hb => ?_⟩
  · rcases set_getElem? hfound with ⟨-, rfl⟩ | ⟨hi, hkept⟩
    · exact (h.mover hs.shared hmember hmove).2
    · exact (hothers i found hi hkept).1
  · rcases set_getElem? ha with ⟨hi, rfl⟩ | ⟨hi, ha'⟩
    · rcases set_getElem? hb with ⟨hj, -⟩ | ⟨hj, hb'⟩
      · exact absurd (hi.symm.trans hj) hij
      · exact (hothers j b hj hb').2
    · rcases set_getElem? hb with ⟨hj, rfl⟩ | ⟨-, hb'⟩
      · exact h.symm (hothers i a hi ha').2
      · exact hs.apart i j a b hij ha' hb'

theorem Keeps.steps (h : Keeps move S P Q) {M : Machine (Parties σ α) (Nat × β)} (start : α → Prop) (hM : M.step = (interleaving start move).step)
    {labels : List (Nat × β)} {s s' : Parties σ α} (hs : Held S P Q s) (hsteps : Steps M s labels s') : Held S P Q s' := by
  refine Steps.stable (I := Held S P Q) (fun t label u hheld hstep => ?_) hsteps hs
  rw [hM] at hstep
  exact h.step start hheld hstep

/-- The steps of a machine are those of another with the same steps. -/
theorem steps_congr {τ γ : Type} {M N : Machine τ γ} (h : M.step = N.step) {s t : τ} {labels : List γ} (hsteps : Steps M s labels t) :
    Steps N s labels t := by
  induction hsteps with
  | nil => exact .nil
  | snoc _ hstep ih => exact .snoc ih (h ▸ hstep)

end GitCommitsPush.Lib.Sharing
