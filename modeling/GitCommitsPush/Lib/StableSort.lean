/-
  GitCommitsPush.Lib.StableSort — what a stable sort keeps of the order it is given.

  Under a total preorder two elements may tie without being equal. A stable sort keeps the
  elements that tie in their order, so two lists sort to one list exactly when, element by
  element, those that tie with it stand in the same order in both (`mergeSort_eq_iff`).
-/

namespace GitCommitsPush.Lib.StableSort

variable {α : Type} (le : α → α → Bool)

/-- Neither goes before the other. -/
def tied (x y : α) : Bool := le x y && le y x

/-- Transitive and total. -/
structure TotalPreorder : Prop where
  trans : ∀ a b c, le a b = true → le b c = true → le a c = true
  total : ∀ a b, (le a b || le b a) = true

variable {le}

theorem TotalPreorder.refl (h : TotalPreorder le) (a : α) : le a a = true := by
  simpa using h.total a a

theorem TotalPreorder.tied_self (h : TotalPreorder le) (a : α) : tied le a a = true := by
  simp [tied, h.refl a]

/-- What ties with one of two that tie ties with the other. -/
theorem TotalPreorder.tied_congr (h : TotalPreorder le) {x y : α} (hxy : tied le x y = true) (z : α) :
    tied le x z = tied le y z := by
  simp only [tied, Bool.and_eq_true] at hxy ⊢
  apply Bool.eq_iff_iff.mpr
  simp only [Bool.and_eq_true]
  constructor
  · intro ⟨hxz, hzx⟩
    exact ⟨h.trans y x z hxy.2 hxz, h.trans z x y hzx hxy.1⟩
  · intro ⟨hyz, hzy⟩
    exact ⟨h.trans x y z hxy.1 hyz, h.trans z y x hzy hxy.2⟩

/-- The elements that tie with one stand in order. -/
theorem TotalPreorder.pairwise_filter_tied (h : TotalPreorder le) (x : α) (l : List α) : (l.filter (tied le x)).Pairwise (le · · = true) := by
  rw [List.pairwise_iff_forall_sublist]
  intro a b hab
  have ha : a ∈ l.filter (tied le x) := hab.mem List.mem_cons_self
  have hb : b ∈ l.filter (tied le x) := hab.mem (List.mem_cons_of_mem a List.mem_cons_self)
  have ha := (List.mem_filter.mp ha).2
  have hb := (List.mem_filter.mp hb).2
  simp only [tied, Bool.and_eq_true] at ha hb
  exact h.trans a x b ha.2 hb.1

theorem TotalPreorder.filter_mergeSort (h : TotalPreorder le) (x : α) (l : List α) :
    (l.mergeSort le).filter (tied le x) = l.filter (tied le x) := by
  have hsub : (l.filter (tied le x)).Sublist (l.mergeSort le) :=
    List.sublist_mergeSort h.trans h.total (h.pairwise_filter_tied x l) List.filter_sublist
  have hsub := hsub.filter (tied le x)
  rw [List.filter_filter, List.filter_congr (fun _ _ => Bool.and_self _)] at hsub
  have hlength := ((List.mergeSort_perm l le).filter (tied le x)).length_eq
  exact (hsub.eq_of_length hlength.symm).symm

/-- Two lists in order agree when their ties do. -/
theorem TotalPreorder.eq_of_filter (h : TotalPreorder le) {l m : List α} (hl : l.Pairwise (le · · = true))
    (hm : m.Pairwise (le · · = true)) (hties : ∀ x, l.filter (tied le x) = m.filter (tied le x)) : l = m := by
  have hmem : ∀ {l m : List α}, (∀ x, l.filter (tied le x) = m.filter (tied le x)) → ∀ a ∈ l, a ∈ m := by
    intro l m hties a ha
    have ha : a ∈ l.filter (tied le a) := List.mem_filter.mpr ⟨ha, h.tied_self a⟩
    rw [hties a] at ha
    exact (List.mem_filter.mp ha).1
  induction l generalizing m with
  | nil =>
    cases m with
    | nil => rfl
    | cons b m => exact absurd (hmem (fun x => (hties x).symm) b List.mem_cons_self) List.not_mem_nil
  | cons a l ih =>
    cases m with
    | nil => exact absurd (hmem hties a List.mem_cons_self) List.not_mem_nil
    | cons b m =>
      -- the heads go before each other, so both lead the ties of `a`
      have hab : le a b = true := by
        rcases List.mem_cons.mp (hmem (fun x => (hties x).symm) b List.mem_cons_self) with rfl | hb
        · exact h.refl b
        · exact List.rel_of_pairwise_cons hl hb
      have hba : le b a = true := by
        rcases List.mem_cons.mp (hmem hties a List.mem_cons_self) with rfl | ha
        · exact h.refl a
        · exact List.rel_of_pairwise_cons hm ha
      have htied : tied le a b = true := by simp [tied, hab, hba]
      have hhead := hties a
      rw [List.filter_cons_of_pos (h.tied_self a), List.filter_cons_of_pos htied] at hhead
      obtain ⟨rfl, -⟩ := List.cons.inj hhead
      congr 1
      refine ih hl.tail hm.tail fun x => ?_
      have hx := hties x
      by_cases hxa : tied le x a = true
      · rw [List.filter_cons_of_pos hxa, List.filter_cons_of_pos hxa] at hx
        exact (List.cons.inj hx).2
      · rw [List.filter_cons_of_neg hxa, List.filter_cons_of_neg hxa] at hx
        exact hx

theorem TotalPreorder.mergeSort_eq_iff (h : TotalPreorder le) {l m : List α} :
    l.mergeSort le = m.mergeSort le ↔ ∀ x, l.filter (tied le x) = m.filter (tied le x) := by
  constructor
  · intro heq x
    rw [← h.filter_mergeSort x l, heq, h.filter_mergeSort x m]
  · intro hties
    refine h.eq_of_filter (List.pairwise_mergeSort h.trans h.total l) (List.pairwise_mergeSort h.trans h.total m) fun x => ?_
    rw [h.filter_mergeSort x l, hties x, h.filter_mergeSort x m]

end GitCommitsPush.Lib.StableSort
