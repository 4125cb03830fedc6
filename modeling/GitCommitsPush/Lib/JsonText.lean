/-
  GitCommitsPush.Lib.JsonText — the texts `JSON.stringify` writes read back in one way.

  `Delimited f`: no text of `f` begins another, so what follows a text can be told from
  it. String literals, nullable strings and arrays of delimited texts are delimited.
-/

import GitCommitsPush.Lib.JsText

namespace GitCommitsPush.Lib.JsonText

open GitCommitsPush.Lib.JsText

/-- A text of `f` at the head of a line tells the value, and where the text ends. -/
def Delimited {α : Type} (f : α → List Char) : Prop := ∀ a b x y, f a ++ x = f b ++ y → a = b ∧ x = y

variable {α : Type} {f : α → List Char}

theorem Delimited.injective (h : Delimited f) {a b : α} (heq : f a = f b) : a = b :=
  (h a b [] [] (by rw [heq])).1

theorem Delimited.of_prefix (h : ∀ a b, f a <+: f b → a = b) : Delimited f := by
  intro a b x y heq
  have hab : a = b := by
    have hx : f a <+: f b ++ y := ⟨x, heq⟩
    rcases List.prefix_or_prefix_of_prefix hx (List.prefix_append (f b) y) with hp | hp
    · exact h a b hp
    · exact (h b a hp).symm
  subst hab
  exact ⟨rfl, List.append_cancel_left heq⟩

/-! ## Strings -/

theorem jsonChar_plain {c : Char} (h : 93 ≤ c.toNat) : jsonChar c = [c] := by
  have hquote : c ≠ '"' := by intro he; subst he; exact absurd h (by decide)
  have hslash : c ≠ '\\' := by intro he; subst he; exact absurd h (by decide)
  rw [jsonChar, if_neg hquote, if_neg hslash, if_neg (by omega)]

/-- Of the characters up to the backslash, no text begins another. -/
theorem jsonChar_low : ∀ n < 93, ∀ m < 93,
    (jsonChar (Char.ofNat n)).isPrefixOf (jsonChar (Char.ofNat m)) = true → n = m := by
  decide +kernel

theorem jsonChar_low_head : ∀ n < 93,
    ((jsonChar (Char.ofNat n)).head?.any fun c => c.toNat < 93 && c != '"') = true := by
  decide +kernel

/-- A text starts with no quote, and with its own character or one up to the backslash. -/
theorem jsonChar_head (c : Char) : ∃ d ds, jsonChar c = d :: ds ∧ d ≠ '"' ∧ (c.toNat < 93 → d.toNat < 93) := by
  by_cases hc : c.toNat < 93
  · have h := jsonChar_low_head c.toNat hc
    rw [Char.ofNat_toNat] at h
    cases htext : jsonChar c with
    | nil => rw [htext] at h; cases h
    | cons d ds =>
      rw [htext] at h
      simp only [List.head?_cons, Option.any_some, Bool.and_eq_true, decide_eq_true_eq, bne_iff_ne] at h
      exact ⟨d, ds, rfl, h.2, fun _ => h.1⟩
  · refine ⟨c, [], jsonChar_plain (by omega), ?_, fun h => absurd h hc⟩
    intro he
    subst he
    exact hc (by decide)

theorem jsonChar_delimited : Delimited jsonChar := by
  apply Delimited.of_prefix
  intro a b h
  by_cases ha : a.toNat < 93
  · by_cases hb : b.toNat < 93
    · have hlow := jsonChar_low a.toNat ha b.toNat hb
      rw [Char.ofNat_toNat, Char.ofNat_toNat] at hlow
      exact Char.toNat_inj.mp (hlow (List.isPrefixOf_iff_prefix.mpr h))
    · obtain ⟨d, ds, htext, -, hd⟩ := jsonChar_head a
      rw [htext, jsonChar_plain (by omega), List.cons_prefix_cons] at h
      have := hd ha
      rw [h.1] at this
      exact absurd this hb
  · rw [jsonChar_plain (by omega)] at h
    obtain ⟨d, ds, htext, -, hd⟩ := jsonChar_head b
    rw [htext, List.cons_prefix_cons] at h
    by_cases hb : b.toNat < 93
    · have := hd hb
      rw [← h.1] at this
      exact absurd this ha
    · rw [jsonChar_plain (by omega)] at htext
      rw [h.1]
      exact (List.cons.inj htext).1.symm

/-- The body of a literal ends at the first bare quote. -/
theorem body_delimited {cs ds x y : List Char}
    (h : cs.flatMap jsonChar ++ '"' :: x = ds.flatMap jsonChar ++ '"' :: y) : cs = ds ∧ x = y := by
  induction cs generalizing ds with
  | nil =>
    cases ds with
    | nil => exact ⟨rfl, (List.cons.inj h).2⟩
    | cons d ds =>
      obtain ⟨e, es, htext, he, -⟩ := jsonChar_head d
      rw [List.flatMap_cons, htext] at h
      exact absurd (List.cons.inj h).1.symm he
  | cons c cs ih =>
    cases ds with
    | nil =>
      obtain ⟨e, es, htext, he, -⟩ := jsonChar_head c
      rw [List.flatMap_cons, htext] at h
      exact absurd (List.cons.inj h).1 he
    | cons d ds =>
      rw [List.flatMap_cons, List.flatMap_cons, List.append_assoc, List.append_assoc] at h
      obtain ⟨rfl, hrest⟩ := jsonChar_delimited _ _ _ _ h
      obtain ⟨rfl, hend⟩ := ih hrest
      exact ⟨rfl, hend⟩

theorem jsonString_delimited : Delimited fun s => (jsonString s).toList := by
  intro s t x y h
  simp only [jsonString, String.toList_ofList, List.cons_append, List.append_assoc, List.nil_append, List.cons.injEq,
    true_and] at h
  obtain ⟨hs, hend⟩ := body_delimited h
  exact ⟨String.toList_inj.mp hs, hend⟩

theorem jsonString_head (s : String) : ∃ cs, (jsonString s).toList = '"' :: cs := by
  rw [jsonString, String.toList_ofList]
  exact ⟨_, rfl⟩

theorem jsonNullable_delimited : Delimited fun s => (jsonNullable s).toList := by
  intro s t x y h
  cases s with
  | none =>
    cases t with
    | none => exact ⟨rfl, List.append_cancel_left h⟩
    | some t =>
      obtain ⟨cs, ht⟩ := jsonString_head t
      simp only [jsonNullable, ht] at h
      cases (List.cons.inj h).1
  | some s =>
    cases t with
    | none =>
      obtain ⟨cs, hs⟩ := jsonString_head s
      simp only [jsonNullable, hs] at h
      cases (List.cons.inj h).1
    | some t =>
      obtain ⟨rfl, hend⟩ := jsonString_delimited s t x y h
      exact ⟨rfl, hend⟩

/-! ## Arrays -/

/-- The items of an array up to its bracket. -/
theorem items_delimited (hf : Delimited f) (hhead : ∀ a, ∃ c cs, f a = c :: cs ∧ c ≠ ']') {as bs : List α} {x y : List Char}
    (h : joinWith [','] (as.map f) ++ ']' :: x = joinWith [','] (bs.map f) ++ ']' :: y) : as = bs ∧ x = y := by
  have hopen : ∀ (b : α) (bs : List α) (x y : List Char), ']' :: x ≠ joinWith [','] ((b :: bs).map f) ++ ']' :: y := by
    intro b bs x y he
    obtain ⟨c, cs, htext, hc⟩ := hhead b
    cases bs with
    | nil =>
      simp only [List.map_cons, List.map_nil, joinWith, htext] at he
      exact hc (List.cons.inj he).1.symm
    | cons b' bs =>
      simp only [List.map_cons, joinWith, htext] at he
      exact hc (List.cons.inj he).1.symm
  induction as generalizing bs with
  | nil =>
    cases bs with
    | nil => exact ⟨rfl, (List.cons.inj h).2⟩
    | cons b bs => exact absurd h (hopen b bs x y)
  | cons a as ih =>
    cases bs with
    | nil => exact absurd h.symm (hopen a as y x)
    | cons b bs =>
      cases as with
      | nil =>
        cases bs with
        | nil =>
          obtain ⟨rfl, hend⟩ := hf _ _ _ _ h
          exact ⟨rfl, (List.cons.inj hend).2⟩
        | cons b' bs =>
          simp only [List.map_cons, List.map_nil, joinWith, List.append_assoc, List.cons_append] at h
          cases (List.cons.inj (hf _ _ _ _ h).2).1
      | cons a' as =>
        cases bs with
        | nil =>
          simp only [List.map_cons, List.map_nil, joinWith, List.append_assoc, List.cons_append] at h
          cases (List.cons.inj (hf _ _ _ _ h).2).1
        | cons b' bs =>
          simp only [List.map_cons, joinWith, List.append_assoc, List.cons_append, List.nil_append] at h
          obtain ⟨rfl, hrest⟩ := hf _ _ _ _ h
          obtain ⟨htail, hend⟩ := @ih (b' :: bs) (List.cons.inj hrest).2
          exact ⟨by rw [htail], hend⟩

theorem jsonArray_delimited {f : α → String} (hf : Delimited fun a => (f a).toList)
    (hhead : ∀ a, ∃ c cs, (f a).toList = c :: cs ∧ c ≠ ']') :
    Delimited fun as : List α => (jsonArray (as.map f)).toList := by
  intro as bs x y h
  simp only [jsonArray, joinStrings, String.toList_append, String.toList_ofList, List.append_assoc, List.map_map] at h
  exact items_delimited hf hhead (List.cons.inj h).2

end GitCommitsPush.Lib.JsonText
