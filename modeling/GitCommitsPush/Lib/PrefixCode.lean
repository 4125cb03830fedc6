/-
  GitCommitsPush.Lib.PrefixCode — codes that can be told from what follows them.

  `PrefixFree f`: a stream that begins with a code of `f` tells whose code it is and where it
  ends. A text that ends with a separator it does not hold (`PrefixFree.ended`) and a text
  after its length (`PrefixFree.counted`) are prefix free, and a stream of such codes is of
  one list of values (`PrefixFree.flatMap_inj`).

  Texts are written as UTF-8, numbers in digits of a base up to ten.
-/

import Mathlib.Data.List.Basic

namespace GitCommitsPush.Lib.PrefixCode

variable {α β γ : Type}

def PrefixFree (f : α → List β) : Prop := ∀ a b x y, f a ++ x = f b ++ y → a = b ∧ x = y

namespace PrefixFree

variable {f : α → List β}

/-- The codes of some values are told apart as all are. -/
theorem comp (hf : PrefixFree f) {g : γ → α} (hg : g.Injective) : PrefixFree fun c => f (g c) := by
  intro c d x y h
  obtain ⟨hcd, h⟩ := hf _ _ _ _ h
  exact ⟨hg hcd, h⟩

/-- What ends with a separator ends where the separator is first. -/
theorem ended {sep : β} (hf : f.Injective) (hsep : ∀ a, sep ∉ f a) : PrefixFree fun a => f a ++ [sep] := by
  have hread : ∀ (u v x y : List β), sep ∉ u → sep ∉ v → u ++ [sep] ++ x = v ++ [sep] ++ y → u = v ∧ x = y := by
    intro u
    induction u with
    | nil =>
      intro v x y _ hv h
      cases v with
      | nil => exact ⟨rfl, (List.cons.inj h).2⟩
      | cons c v => exact absurd (List.mem_cons.mpr (.inl (List.cons.inj h).1)) hv
    | cons c u ih =>
      intro v x y hu hv h
      cases v with
      | nil => exact absurd (List.mem_cons.mpr (.inl (List.cons.inj h).1.symm)) hu
      | cons d v =>
        obtain ⟨rfl, htail⟩ := List.cons.inj h
        obtain ⟨rfl, hxy⟩ := ih v x y (fun hmem => hu (List.mem_cons_of_mem c hmem))
          (fun hmem => hv (List.mem_cons_of_mem c hmem)) htail
        exact ⟨rfl, hxy⟩
  intro a b x y h
  obtain ⟨hab, hxy⟩ := hread (f a) (f b) x y (hsep a) (hsep b) h
  exact ⟨hf hab, hxy⟩

/-- A text after its length. -/
theorem counted {header : Nat → List β} (hheader : PrefixFree header) :
    PrefixFree fun text : List β => header text.length ++ text := by
  intro u v x y h
  dsimp only at h
  rw [List.append_assoc, List.append_assoc] at h
  obtain ⟨hlength, h⟩ := hheader _ _ _ _ h
  exact List.append_inj h hlength

/-- The codes of two lists of values, one after another. -/
theorem flatMap_inj (hf : PrefixFree f) (hne : ∀ a, f a ≠ []) {as bs : List α} (h : as.flatMap f = bs.flatMap f) :
    as = bs := by
  induction as generalizing bs with
  | nil =>
    cases bs with
    | nil => rfl
    | cons b bs =>
      rw [List.flatMap_nil, List.flatMap_cons] at h
      exact absurd (List.append_eq_nil_iff.mp h.symm).1 (hne b)
  | cons a as ih =>
    cases bs with
    | nil =>
      rw [List.flatMap_nil, List.flatMap_cons] at h
      exact absurd (List.append_eq_nil_iff.mp h).1 (hne a)
    | cons b bs =>
      rw [List.flatMap_cons, List.flatMap_cons] at h
      obtain ⟨rfl, hrest⟩ := hf a b _ _ h
      rw [ih hrest]

end PrefixFree

/-! ## Texts and numbers -/

/-- `Buffer.from(text, "utf8")`. -/
def utf8 (text : String) : List UInt8 := text.toByteArray.data.toList

theorem utf8_injective : utf8.Injective := by
  intro s t h
  have hdata : s.toByteArray.data = t.toByteArray.data := Array.toList_inj.mp h
  exact String.toByteArray_inj.mp (ByteArray.ext hdata)

theorem utf8_ofList (cs : List Char) : utf8 (String.ofList cs) = cs.flatMap String.utf8EncodeChar := by
  unfold utf8
  rw [String.toByteArray_ofList, List.utf8Encode, List.data_toByteArray]

/-- A number in the base. -/
def digits (base n : Nat) : String := String.ofList (Nat.toDigits base n)

theorem digits_injective {base : Nat} (hlow : 1 < base) (hhigh : base ≤ 10) : (digits base).Injective := by
  intro m n h
  have hdigits : Nat.toDigits base m = Nat.toDigits base n := by
    have hlist := congrArg String.toList h
    rwa [digits, digits, String.toList_ofList, String.toList_ofList] at hlist
  calc m = Nat.ofDigitChars base (Nat.toDigits base m) 0 := (Nat.ofDigitChars_toDigits hlow hhigh).symm
    _ = n := by rw [hdigits, Nat.ofDigitChars_toDigits hlow hhigh]

/-- A digit is a byte of its own, and not a colon. -/
theorem colon_not_mem_digits (n : Nat) : 58 ∉ utf8 (digits 10 n) := by
  intro h
  rw [digits, utf8_ofList, List.mem_flatMap] at h
  obtain ⟨c, hc, h⟩ := h
  have hdigit := Nat.isDigit_of_mem_toDigits (by decide) (by decide) hc
  have hrange : 48 ≤ c.val ∧ c.val ≤ 57 := by simpa [Char.isDigit] using hdigit
  have hsize : c.utf8Size = 1 := by
    unfold Char.utf8Size
    rw [if_pos]
    exact UInt32.le_trans hrange.2 (by decide)
  rw [String.utf8EncodeChar_eq_singleton hsize, List.mem_singleton] at h
  have hval := congrArg UInt8.toNat h
  have hhigh : c.val.toNat ≤ 57 := hrange.2
  rw [UInt32.toNat_toUInt8] at hval
  have hcolon : c.val.toNat % 256 = 58 := hval.symm
  omega

end GitCommitsPush.Lib.PrefixCode
