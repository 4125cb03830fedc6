/-
  GitCommitsPush.Lib.Exclusion — parties that enter one place through a lock bit.

  `Exclusive lock inside`: a party inside has set the bit, and no two are inside. A party's turn
  keeps it when the party holds the place, finds the bit clear, or stays outside and leaves the
  bit as it is (`Exclusive.turn`); the others are where they were.
-/

import Mathlib.Logic.Basic

namespace GitCommitsPush.Lib.Exclusion

variable {ι : Type} {lock lock' : Bool} {inside inside' : ι → Bool}

structure Exclusive (lock : Bool) (inside : ι → Bool) : Prop where
  locked : ∀ i, inside i = true → lock = true
  alone : ∀ i j, inside i = true → inside j = true → i = j

theorem Exclusive.others (h : Exclusive lock inside) {i j : ι} (hi : inside i = true) (hne : j ≠ i) : inside j = false := by
  by_cases hj : inside j = true
  · exact absurd (h.alone j i hj hi) hne
  · simpa using hj

theorem Exclusive.vacant (h : Exclusive lock inside) (hfree : lock = false) (i : ι) : inside i = false := by
  by_cases hi : inside i = true
  · rw [h.locked i hi] at hfree
    cases hfree
  · simpa using hi

/-- Nobody is inside and everybody may enter. -/
theorem Exclusive.empty (h : ∀ i, inside i = false) : Exclusive lock inside :=
  ⟨fun i hi => by simp [h i] at hi, fun i _ hi => by simp [h i] at hi⟩

theorem Exclusive.turn (h : Exclusive lock inside) {i : ι} (hothers : ∀ j, j ≠ i → inside' j = inside j)
    (hset : inside' i = true → lock' = true) (hmay : (inside i = true ∨ lock = false) ∨ (lock' = lock ∧ inside' i = false)) :
    Exclusive lock' inside' := by
  rcases hmay with hmay | ⟨hlock, hout⟩
  · have hempty : ∀ j, j ≠ i → inside' j = false := by
      intro j hne
      rw [hothers j hne]
      rcases hmay with hin | hfree
      · exact h.others hin hne
      · exact h.vacant hfree j
    have hsame : ∀ j, inside' j = true → j = i := by
      intro j hj
      by_cases hne : j = i
      · exact hne
      · simp [hempty j hne] at hj
    exact ⟨fun j hj => hset (hsame j hj ▸ hj), fun j k hj hk => (hsame j hj).trans (hsame k hk).symm⟩
  · have hback : ∀ j, inside' j = true → inside j = true := by
      intro j hj
      by_cases hne : j = i
      · subst hne
        simp [hout] at hj
      · rwa [← hothers j hne]
    exact ⟨fun j hj => hlock.trans (h.locked j (hback j hj)), fun j k hj hk => h.alone j k (hback j hj) (hback k hk)⟩

/-- A turn in which nobody enters or leaves. -/
theorem Exclusive.still (h : Exclusive lock inside) (hinside : ∀ i, inside' i = inside i) : Exclusive lock inside' :=
  ⟨fun i hi => h.locked i (hinside i ▸ hi), fun i j hi hj => h.alone i j (hinside i ▸ hi) (hinside j ▸ hj)⟩

end GitCommitsPush.Lib.Exclusion
