/-
  GitCommitsPush.Publication.ObjectId — the ids of Git objects.

  The schema of the state accepts 40 or 64 lower-case hexadecimal digits. Git prints an id
  before a newline, or before the rest of a line: both are read back (`printed`, `listed`).
-/

import GitCommitsPush.Lib.JsText

namespace GitCommitsPush.Publication

open GitCommitsPush.Lib.JsText

/-- `/[a-f0-9]/`. -/
def isHexChar (c : Char) : Bool := ('a' ≤ c && c ≤ 'f') || ('0' ≤ c && c ≤ '9')

/-- `/^(?:[a-f0-9]{40}|[a-f0-9]{64})$/u`. -/
def gitObjectIdSchema (text : String) : Bool :=
  (text.toList.length == 40 || text.toList.length == 64) && text.toList.all isHexChar

structure ObjectId where
  text : String
  valid : gitObjectIdSchema text = true

theorem ObjectId.text_inj {a b : ObjectId} (h : a.text = b.text) : a = b := by
  cases a
  cases b
  cases h
  rfl

theorem ObjectId.map_text_inj {a b : Option ObjectId} (h : a.map ObjectId.text = b.map ObjectId.text) : a = b :=
  Option.map_injective (fun _ _ => ObjectId.text_inj) h

instance : DecidableEq ObjectId := fun a b =>
  if h : a.text = b.text then isTrue (ObjectId.text_inj h)
  else isFalse fun heq => h (congrArg ObjectId.text heq)

theorem isHexChar_range {c : Char} (h : isHexChar c = true) :
    (97 ≤ c.toNat ∧ c.toNat ≤ 102) ∨ (48 ≤ c.toNat ∧ c.toNat ≤ 57) := by
  rcases Bool.or_eq_true _ _ ▸ h with h | h
  · rw [Bool.and_eq_true, decide_eq_true_eq, decide_eq_true_eq] at h
    exact .inl h
  · rw [Bool.and_eq_true, decide_eq_true_eq, decide_eq_true_eq] at h
    exact .inr h

theorem isSpace_of_isHexChar {c : Char} (h : isHexChar c = true) : isSpace c = false := by
  have hrange := isHexChar_range h
  unfold isSpace isSpaceCode
  simp only [Bool.or_eq_false_iff, Bool.and_eq_false_iff, decide_eq_false_iff_not, beq_eq_false_iff_ne]
  omega

namespace ObjectId

variable (id : ObjectId)

theorem hex : ∀ c ∈ id.text.toList, isHexChar c = true := List.all_eq_true.mp (Bool.and_eq_true_iff.mp id.valid).2

theorem ne_nil : id.text.toList ≠ [] := by
  intro h
  have hvalid := id.valid
  rw [gitObjectIdSchema, h] at hvalid
  cases hvalid

theorem ne_empty : id.text ≠ "" := fun h => id.ne_nil (by rw [h]; rfl)

theorem not_space : ∀ c ∈ id.text.toList, isSpace c = false := fun c hc => isSpace_of_isHexChar (id.hex c hc)

/-- Trimming takes nothing of an id in front. -/
theorem trim_append (rest : List Char) : trim (id.text.toList ++ rest) = id.text.toList ++ trimEnd rest := by
  have hkept : ∀ s : List Char, (∀ c ∈ s, isSpace c = false) → s.dropWhile isSpace = s := by
    intro s hs
    cases s with
    | nil => rfl
    | cons c s => rw [List.dropWhile_cons_of_neg (by rw [hs c List.mem_cons_self]; exact Bool.false_ne_true)]
  have hstart : trimStart (id.text.toList ++ rest) = id.text.toList ++ rest := by
    obtain ⟨c, cs, hcs⟩ := List.exists_cons_of_ne_nil id.ne_nil
    have hc : isSpace c = false := id.not_space c (by rw [hcs]; exact List.mem_cons_self)
    rw [hcs, trimStart, List.cons_append, List.dropWhile_cons_of_neg (by rw [hc]; exact Bool.false_ne_true)]
  rw [trim, hstart, trimEnd, trimEnd, List.reverse_append, List.dropWhile_append]
  split
  · rename_i hempty
    rw [List.isEmpty_iff.mp hempty, List.reverse_nil, List.append_nil,
      hkept _ fun c hc => id.not_space c (List.mem_reverse.mp hc), List.reverse_reverse]
  · rw [List.reverse_append, List.reverse_reverse]

theorem printed : trimString (id.text ++ "\n") = id.text := by
  rw [trimString, String.toList_append, id.trim_append]
  show String.ofList (id.text.toList ++ []) = id.text
  rw [List.append_nil, String.ofList_toList]

/-- The first word of a line that the id begins. -/
theorem listed (rest : List Char) (hrest : ∀ c ∈ rest.head?, isSpace c = true) :
    String.ofList ((trimString (String.ofList (id.text.toList ++ rest))).toList.takeWhile fun c => !isSpace c) = id.text := by
  have hprefix : trimEnd rest <+: rest := by
    unfold trimEnd
    rw [← List.reverse_suffix, List.reverse_reverse]
    exact List.dropWhile_suffix _
  have hnone : (trimEnd rest).takeWhile (fun c => !isSpace c) = [] := by
    cases hkept : trimEnd rest with
    | nil => rfl
    | cons c cs =>
      obtain ⟨after, hafter⟩ := hprefix
      rw [hkept] at hafter
      have hc := hrest c (by rw [← hafter]; rfl)
      rw [List.takeWhile_cons_of_neg (by rw [hc]; decide)]
  rw [trimString, String.toList_ofList, String.toList_ofList, id.trim_append,
    List.takeWhile_append_of_pos (fun c hc => by rw [id.not_space c hc]; rfl), hnone, List.append_nil,
    String.ofList_toList]

/-- The id with 40 times a digit. -/
def repeated (digit : Char) (h : isHexChar digit = true) : ObjectId where
  text := String.ofList (List.replicate 40 digit)
  valid := by simp [gitObjectIdSchema, h]

def ones : ObjectId := repeated '1' (by decide)

def twos : ObjectId := repeated '2' (by decide)

end ObjectId

end GitCommitsPush.Publication
