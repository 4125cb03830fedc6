/-
  GitCommitsPush.Lib.FlatObject — the line `JSON.stringify(value)` writes of an object whose fields
  are strings and natural numbers.

  - `parse_flatText`: the line reads back, for fields of distinct names, where the numerals of the
    numbers read back.
-/

import GitCommitsPush.Lib.JsonDocument

namespace GitCommitsPush.Lib.FlatObject

open GitCommitsPush.Lib.JsText
open GitCommitsPush.Lib.JsonDocument
open GitCommitsPush.Lib.JsonTree
open GitCommitsPush.Lib.Regex (stringOfUnits stringOfUnits_units)

inductive Scalar where
  | text (value : String)
  | count (value : Nat)
  deriving DecidableEq, Repr

def Scalar.json : Scalar → JsonValue
  | .text value => .string value
  | .count value => .number (some (value : Int))

def numeralOf (n : Nat) : List Char := (toString n).toList

def scalarText : Scalar → List Char
  | .text value => quoted value
  | .count value => numeralOf value

def fieldText (field : String × Scalar) : List Char := quoted field.1 ++ ':' :: scalarText field.2

def othersText : List (String × Scalar) → List Char
  | [] => []
  | field :: fields => ',' :: (fieldText field ++ othersText fields)

/-- `JSON.stringify` of an object with a field at least. -/
def flatText (field : String × Scalar) (others : List (String × Scalar)) : List Char :=
  '\x7b' :: (fieldText field ++ (othersText others ++ ['\x7d']))

def flatFields (fields : List (String × Scalar)) : List (String × JsonValue) := fields.map fun field => (field.1, field.2.json)

/-- The numeral of a natural number is worth that number. -/
def ReadsNumerals (integerOf : List Char → Option Int) : Prop := ∀ n : Nat, integerOf (numeralOf n) = some (n : Int)

/-! ## Numerals -/

theorem numeralOf_eq (n : Nat) : numeralOf n = Nat.toDigits 10 n := by
  unfold numeralOf
  rw [Nat.toString_eq_ofList_toDigits, String.toList_ofList]

theorem numeralOf_isDigit {n : Nat} {c : Char} (h : c ∈ numeralOf n) : c.isDigit = true := by
  rw [numeralOf_eq] at h
  exact Nat.isDigit_of_mem_toDigits (by decide) (by decide) h

theorem numeralOf_ne_nil (n : Nat) : numeralOf n ≠ [] := by
  rw [numeralOf_eq]
  exact Nat.toDigits_ne_nil

/-- Only nought starts with a nought. -/
theorem numeralOf_zero_head {n : Nat} {rest : List Char} (h : numeralOf n = '0' :: rest) : n = 0 ∧ rest = [] := by
  rw [numeralOf_eq] at h
  induction n using Nat.strongRecOn generalizing rest with
  | ind n ih =>
    rw [Nat.toDigits_eq_if (by decide)] at h
    by_cases hsmall : n < 10
    · rw [if_pos hsmall] at h
      obtain ⟨hdigit, hrest⟩ := List.cons.inj h
      refine ⟨?_, hrest.symm⟩
      have hdigits : ∀ k < 10, Nat.digitChar k = '0' → k = 0 := by decide
      exact hdigits n hsmall hdigit
    · rw [if_neg hsmall] at h
      obtain ⟨first, more, hmore⟩ := List.exists_cons_of_ne_nil (@Nat.toDigits_ne_nil (n / 10) 10)
      rw [hmore, List.cons_append] at h
      obtain ⟨hfirst, -⟩ := List.cons.inj h
      rw [hfirst] at hmore
      have hzero := (ih (n / 10) (by omega) hmore).1
      omega

/-- What may follow a number in a line. -/
def ends (c : Char) : Bool := c == ',' || c == '\x7d'

theorem takeWhile_digits {ds rest : List Char} {c : Char} (hds : ∀ d ∈ ds, d.isDigit = true) (hc : c.isDigit = false) :
    (ds ++ c :: rest).takeWhile (·.isDigit) = ds := by
  rw [List.takeWhile_append_of_pos hds, List.takeWhile_cons_of_neg (by rw [hc]; exact Bool.false_ne_true), List.append_nil]

theorem ends_cases {c : Char} (h : ends c = true) : c = ',' ∨ c = '\x7d' := by
  unfold ends at h
  rcases Bool.or_eq_true _ _ ▸ h with h | h
  · exact .inl (beq_iff_eq.mp h)
  · exact .inr (beq_iff_eq.mp h)

theorem integerPart_numeralOf (n : Nat) {c : Char} (hc : ends c = true) (rest : List Char) :
    integerPart (numeralOf n ++ c :: rest) = some (numeralOf n, c :: rest) := by
  have hend : c.isDigit = false := by rcases ends_cases hc with rfl | rfl <;> decide
  have hdigits : digits (numeralOf n ++ c :: rest) = numeralOf n :=
    takeWhile_digits (fun d hd => numeralOf_isDigit hd) hend
  obtain ⟨first, more, hmore⟩ := List.exists_cons_of_ne_nil (numeralOf_ne_nil n)
  by_cases hzero : first = '0'
  · subst hzero
    obtain ⟨-, rfl⟩ := numeralOf_zero_head hmore
    rw [hmore]
    rfl
  · have hread : integerPart (numeralOf n ++ c :: rest) = someDigits (numeralOf n ++ c :: rest) := by
      rw [hmore, List.cons_append]
      unfold integerPart
      split
      · next heq => exact absurd (List.cons.inj heq).1 hzero
      · rfl
    rw [hread]
    unfold someDigits
    rw [hdigits, if_neg (numeralOf_ne_nil n), List.drop_left]

theorem numeral_numeralOf (n : Nat) {c : Char} (hc : ends c = true) (rest : List Char) :
    numeral (numeralOf n ++ c :: rest) = some (numeralOf n, c :: rest) := by
  have hminus : minus (numeralOf n ++ c :: rest) = ([], numeralOf n ++ c :: rest) := by
    obtain ⟨first, more, hmore⟩ := List.exists_cons_of_ne_nil (numeralOf_ne_nil n)
    have hfirst : first.isDigit = true := numeralOf_isDigit (n := n) (hmore ▸ List.mem_cons_self)
    rw [hmore, List.cons_append]
    unfold minus
    split
    · next heq =>
      rw [(List.cons.inj heq).1] at hfirst
      cases hfirst
    · rfl
  unfold numeral
  rw [hminus]
  show (integerPart (numeralOf n ++ c :: rest)).bind _ = _
  rw [integerPart_numeralOf n hc]
  rcases ends_cases hc with rfl | rfl
  · show some ([] ++ numeralOf n ++ [] ++ [], ',' :: rest) = _
    simp
  · show some ([] ++ numeralOf n ++ [] ++ [], '\x7d' :: rest) = _
    simp

/-! ## Fields -/

section Reading

variable {integerOf : List Char → Option Int}

theorem isBlank_digit {c : Char} (h : c.isDigit = true) : isBlank c = false := by
  cases hblank : isBlank c with
  | false => rfl
  | true =>
    simp only [isBlank, Bool.or_eq_true, beq_iff_eq] at hblank
    rcases hblank with ((rfl | rfl) | rfl) | rfl <;> cases h

theorem value_numeral (hreads : ReadsNumerals integerOf) {fuel : Nat} (n : Nat) {c : Char} (hc : ends c = true) (rest : List Char) :
    value integerOf (fuel + 1) (numeralOf n ++ c :: rest) = some (.number (some (n : Int)), c :: rest) := by
  obtain ⟨first, more, hmore⟩ := List.exists_cons_of_ne_nil (numeralOf_ne_nil n)
  have hfirst : first.isDigit = true := numeralOf_isDigit (n := n) (hmore ▸ List.mem_cons_self)
  have hnumeral := numeral_numeralOf n hc rest
  rw [hmore, List.cons_append] at hnumeral ⊢
  rw [value, skip_cons (isBlank_digit hfirst)]
  have hnot : ∀ d : Char, d.isDigit = false → first ≠ d := by
    intro d hd heq
    rw [heq, hd] at hfirst
    cases hfirst
  split
  · next heq => exact absurd (List.cons.inj heq).1 (hnot _ (by decide))
  · next heq => exact absurd (List.cons.inj heq).1 (hnot _ (by decide))
  · next heq => exact absurd (List.cons.inj heq).1 (hnot _ (by decide))
  · next heq => exact absurd (List.cons.inj heq).1 (hnot _ (by decide))
  · next heq => exact absurd (List.cons.inj heq).1 (hnot _ (by decide))
  · next heq => exact absurd (List.cons.inj heq).1 (hnot _ (by decide))
  · rw [hnumeral, ← hmore, Option.map_some]
    show some (JsonValue.number (integerOf (numeralOf n)), c :: rest) = _
    rw [hreads n]

theorem value_scalar (hreads : ReadsNumerals integerOf) {fuel : Nat} (v : Scalar) {c : Char} (hc : ends c = true) (rest : List Char) :
    value integerOf (fuel + 1) (scalarText v ++ c :: rest) = some (v.json, c :: rest) := by
  cases v with
  | text value =>
    simp only [scalarText, quoted, List.cons_append, List.append_assoc, List.nil_append]
    rw [JsonDocument.value, skip_cons (by decide)]
    show (literal _).map (fun found => (JsonValue.string (stringOfUnits found.1), found.2)) = _
    rw [literal_quoted, Option.map_some, stringOfUnits_units]
    rfl
  | count n => exact value_numeral hreads n hc rest

/-- The fields read back, given one turn of the reader for each and one for the last value. -/
theorem fields_flat (hreads : ReadsNumerals integerOf) (others : List (String × Scalar)) (field : String × Scalar) (fuel : Nat)
    (hfuel : others.length + 2 ≤ fuel) (rest : List Char) :
    fields integerOf fuel (fieldText field ++ (othersText others ++ '\x7d' :: rest)) = some (flatFields (field :: others), rest) := by
  induction others generalizing field fuel with
  | nil =>
    obtain ⟨fuel, rfl⟩ : ∃ k, fuel = k + 2 := ⟨fuel - 2, by simp at hfuel; omega⟩
    obtain ⟨name, v⟩ := field
    rw [fields, fieldText, quoted]
    simp only [othersText, List.nil_append, List.cons_append, List.append_assoc]
    rw [skip_cons (by decide)]
    show (literal _).bind _ = _
    rw [literal_quoted, Option.bind_some, skip_cons (by decide)]
    show (value integerOf (fuel + 1) _).bind _ = _
    rw [value_scalar hreads v (by decide), Option.bind_some, skip_cons (by decide), stringOfUnits_units]
    rfl
  | cons next others ih =>
    obtain ⟨fuel, rfl⟩ : ∃ k, fuel = k + 2 := ⟨fuel - 2, by simp at hfuel; omega⟩
    obtain ⟨name, v⟩ := field
    have hrest := ih next (fuel + 1) (by simp at hfuel; omega)
    rw [fields, fieldText, quoted]
    simp only [othersText, List.nil_append, List.cons_append, List.append_assoc]
    rw [skip_cons (by decide)]
    show (literal _).bind _ = _
    rw [literal_quoted, Option.bind_some, skip_cons (by decide)]
    show (value integerOf (fuel + 1) _).bind _ = _
    rw [value_scalar hreads v (by decide), Option.bind_some, skip_cons (by decide), stringOfUnits_units]
    show (fields integerOf (fuel + 1) _).map (fun found => ((name, v.json) :: found.1, found.2)) = _
    rw [hrest]
    rfl

theorem othersText_length (others : List (String × Scalar)) : others.length ≤ (othersText others).length := by
  induction others with
  | nil => exact Nat.le_refl _
  | cons field others ih =>
    show others.length + 1 ≤ (fieldText field ++ othersText others).length + 1
    rw [List.length_append]
    omega

theorem parse_flatText (hreads : ReadsNumerals integerOf) (field : String × Scalar) (others : List (String × Scalar))
    (hnames : ((field :: others).map (·.1)).Nodup) :
    parse integerOf (String.ofList (flatText field others)) = some (.object (flatFields (field :: others))) := by
  have hlength := othersText_length others
  have hfields := fields_flat hreads others field (2 * (flatText field others).length + 1)
    (by unfold flatText; simp only [List.length_cons, List.length_append]; omega) []
  have hhead : ∃ cs, fieldText field = '"' :: cs := by
    rw [fieldText, quoted, List.cons_append, List.cons_append]
    exact ⟨_, rfl⟩
  obtain ⟨cs, hcs⟩ := hhead
  have hdistinct : ((flatFields (field :: others)).map (·.1)).Nodup := by
    unfold flatFields
    rw [List.map_map]
    exact hnames
  unfold parse
  rw [String.toList_ofList]
  have hvalue : value integerOf (2 * (flatText field others).length + 2) (flatText field others) =
      some (.object (flatFields (field :: others)), []) := by
    have htext : flatText field others = '\x7b' :: ('"' :: (cs ++ (othersText others ++ ['\x7d']))) := by
      unfold flatText
      rw [hcs, List.cons_append]
    rw [hcs, List.cons_append] at hfields
    have hopen : value integerOf (2 * (flatText field others).length + 2) (flatText field others) =
        (fields integerOf (2 * (flatText field others).length + 1) ('"' :: (cs ++ (othersText others ++ ['\x7d'])))).map
          fun found => (ofFields found.1, found.2) := by
      generalize 2 * (flatText field others).length = fuel
      rw [htext]
      exact value_object (skip_cons (by decide)) (by decide)
    have hset : ofFields (flatFields (field :: others)) = .object (flatFields (field :: others)) :=
      congrArg JsonValue.object (setField_foldl [] hdistinct)
    rw [hopen, hfields, Option.map_some, hset]
  rw [hvalue]
  rfl

end Reading

end GitCommitsPush.Lib.FlatObject
