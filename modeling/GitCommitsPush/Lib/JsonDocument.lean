/-
  GitCommitsPush.Lib.JsonDocument — `JSON.parse` and the indented `JSON.stringify`.

  The reader follows the grammar of JSON texts, with fuel for the nesting; the writer is
  `JSON.stringify(value, null, 2)`. What a number is worth is a parameter of both.
  `parse_stringify`: a value without numbers reads back from its own text.
-/

import GitCommitsPush.Lib.JsText
import GitCommitsPush.Lib.JsonTree
import GitCommitsPush.Lib.Regex

namespace GitCommitsPush.Lib.JsonDocument

open JsText JsonTree Regex

/-! ## Reading -/

/-- The white space of JSON, which is less than that of ECMAScript. -/
def isBlank (c : Char) : Bool := c == ' ' || c == '\n' || c == '\r' || c == '\t'

def skip (cs : List Char) : List Char := cs.dropWhile isBlank

def hexValue (c : Char) : Option Nat :=
  if inRange '0' '9' c.toNat then some (c.toNat - '0'.toNat)
  else if inRange 'a' 'f' c.toNat then some (c.toNat - 'a'.toNat + 10)
  else if inRange 'A' 'F' c.toNat then some (c.toNat - 'A'.toNat + 10)
  else none

/-- The unit of `\uXXXX`. -/
def hexUnit (a b c d : Char) : Option Nat := do
  let a ← hexValue a
  let b ← hexValue b
  let c ← hexValue c
  let d ← hexValue d
  return ((a * 16 + b) * 16 + c) * 16 + d

/-- The unit of an escape of one letter. -/
def escaped : Char → Option Nat
  | '"' => some 0x22
  | '\\' => some 0x5C
  | '/' => some 0x2F
  | 'b' => some 0x08
  | 'f' => some 0x0C
  | 'n' => some 0x0A
  | 'r' => some 0x0D
  | 't' => some 0x09
  | _ => none

/-- The units of a string literal whose quote has been read, and what follows the literal. -/
def literal : List Char → Option (List Nat × List Char)
  | [] => none
  | '"' :: rest => some ([], rest)
  | '\\' :: 'u' :: a :: b :: c :: d :: rest =>
    (hexUnit a b c d).bind fun u => (literal rest).map fun found => (u :: found.1, found.2)
  | '\\' :: e :: rest => (escaped e).bind fun u => (literal rest).map fun found => (u :: found.1, found.2)
  | c :: rest =>
    if c = '\\' ∨ c.toNat < 0x20 then none else (literal rest).map fun found => (codeUnits c ++ found.1, found.2)

def digits (cs : List Char) : List Char := cs.takeWhile (·.isDigit)

/-- The digits of a numeral at the head of the text: none is no numeral. -/
def someDigits (cs : List Char) : Option (List Char × List Char) :=
  if digits cs = [] then none else some (digits cs, cs.drop (digits cs).length)

def minus : List Char → List Char × List Char
  | '-' :: rest => (['-'], rest)
  | cs => ([], cs)

/-- No digit follows a leading zero. -/
def integerPart : List Char → Option (List Char × List Char)
  | '0' :: rest => some (['0'], rest)
  | cs => someDigits cs

def fraction : List Char → Option (List Char × List Char)
  | '.' :: rest => (someDigits rest).map fun found => ('.' :: found.1, found.2)
  | cs => some ([], cs)

def exponent : List Char → Option (List Char × List Char)
  | e :: rest =>
    if e = 'e' ∨ e = 'E' then match rest with
      | '+' :: rest => (someDigits rest).map fun found => (e :: '+' :: found.1, found.2)
      | '-' :: rest => (someDigits rest).map fun found => (e :: '-' :: found.1, found.2)
      | rest => (someDigits rest).map fun found => (e :: found.1, found.2)
    else some ([], e :: rest)
  | [] => some ([], [])

def numeral (cs : List Char) : Option (List Char × List Char) := do
  let (sign, rest) := minus cs
  let (whole, rest) ← integerPart rest
  let (part, rest) ← fraction rest
  let (power, rest) ← exponent rest
  return (sign ++ whole ++ part ++ power, rest)

/-- A later field of the same name takes the place of an earlier one. -/
def setField (fields : List (String × JsonValue)) (field : String × JsonValue) : List (String × JsonValue) :=
  if fields.any (·.1 == field.1) then fields.map fun other => if other.1 == field.1 then field else other
  else fields ++ [field]

def ofFields (fields : List (String × JsonValue)) : JsonValue := .object (fields.foldl setField [])

section Reading

-- The value of a numeral, where it is an integer: a double.
variable (integerOf : List Char → Option Int)

mutual

/-- The value at the head of a text, and what follows it. -/
def value : Nat → List Char → Option (JsonValue × List Char)
  | 0, _ => none
  | fuel + 1, cs =>
    match skip cs with
    | '"' :: rest => (literal rest).map fun found => (.string (stringOfUnits found.1), found.2)
    | '[' :: rest =>
      match skip rest with
      | ']' :: after => some (.array [], after)
      | rest => (items fuel rest).map fun found => (.array found.1, found.2)
    | '\x7b' :: rest =>
      match skip rest with
      | '\x7d' :: after => some (.object [], after)
      | rest => (fields fuel rest).map fun found => (ofFields found.1, found.2)
    | 't' :: 'r' :: 'u' :: 'e' :: rest => some (.bool true, rest)
    | 'f' :: 'a' :: 'l' :: 's' :: 'e' :: rest => some (.bool false, rest)
    | 'n' :: 'u' :: 'l' :: 'l' :: rest => some (.null, rest)
    | rest => (numeral rest).map fun found => (.number (integerOf found.1), found.2)

/-- The items of an array, up to its bracket. -/
def items : Nat → List Char → Option (List JsonValue × List Char)
  | 0, _ => none
  | fuel + 1, cs =>
    (value fuel cs).bind fun item =>
      match skip item.2 with
      | ',' :: rest => (items fuel rest).map fun found => (item.1 :: found.1, found.2)
      | ']' :: rest => some ([item.1], rest)
      | _ => none

/-- The fields of an object, up to its brace. -/
def fields : Nat → List Char → Option (List (String × JsonValue) × List Char)
  | 0, _ => none
  | fuel + 1, cs =>
    match skip cs with
    | '"' :: rest =>
      (literal rest).bind fun name =>
        match skip name.2 with
        | ':' :: rest =>
          (value fuel rest).bind fun item =>
            match skip item.2 with
            | ',' :: rest => (fields fuel rest).map fun found => ((stringOfUnits name.1, item.1) :: found.1, found.2)
            | '\x7d' :: rest => some ([(stringOfUnits name.1, item.1)], rest)
            | _ => none
        | _ => none
    | _ => none

end

/-- `JSON.parse`; nothing is its `SyntaxError`. -/
def parse (text : String) : Option JsonValue :=
  (value integerOf (2 * text.toList.length + 2) text.toList).bind fun found =>
    if skip found.2 = [] then some found.1 else none

end Reading

/-! ## Writing -/

def newline (depth : Nat) : List Char := '\n' :: List.replicate (2 * depth) ' '

def quoted (s : String) : List Char := '"' :: s.toList.flatMap jsonChar ++ ['"']

section Writing

-- The numeral of a number.
variable (numeralOf : Option Int → List Char)

mutual

/-- `JSON.stringify(value, null, 2)`, at a depth of nesting. -/
def stringify (depth : Nat) : JsonValue → List Char
  | .null => ['n', 'u', 'l', 'l']
  | .bool true => ['t', 'r', 'u', 'e']
  | .bool false => ['f', 'a', 'l', 's', 'e']
  | .number integer => numeralOf integer
  | .string value => quoted value
  | .array [] => ['[', ']']
  | .array (item :: items) =>
    '[' :: (newline (depth + 1) ++ (stringify (depth + 1) item ++ (stringifyItems (depth + 1) items ++
      (newline depth ++ [']']))))
  | .object [] => ['\x7b', '\x7d']
  | .object (field :: fields) =>
    '\x7b' :: (newline (depth + 1) ++ (stringifyField (depth + 1) field ++ (stringifyFields (depth + 1) fields ++
      (newline depth ++ ['\x7d']))))

def stringifyItems (depth : Nat) : List JsonValue → List Char
  | [] => []
  | item :: items => ',' :: (newline depth ++ (stringify depth item ++ stringifyItems depth items))

def stringifyField (depth : Nat) : String × JsonValue → List Char
  | (name, value) => quoted name ++ (':' :: ' ' :: stringify depth value)

def stringifyFields (depth : Nat) : List (String × JsonValue) → List Char
  | [] => []
  | field :: fields => ',' :: (newline depth ++ (stringifyField depth field ++ stringifyFields depth fields))

end

end Writing

/-! ## Reading what was written -/

theorem skip_cons {c : Char} {cs : List Char} (h : isBlank c = false) : skip (c :: cs) = c :: cs := by
  unfold skip
  rw [List.dropWhile_cons_of_neg (by rw [h]; exact Bool.false_ne_true)]

theorem skip_newline (depth : Nat) (cs : List Char) : skip (newline depth ++ cs) = skip cs := by
  have hspaces : ∀ n, skip (List.replicate n ' ' ++ cs) = skip cs := by
    intro n
    induction n with
    | zero => rfl
    | succ n ih =>
      rw [List.replicate_succ, List.cons_append, ← ih]
      exact List.dropWhile_cons_of_pos rfl
  rw [← hspaces (2 * depth)]
  exact List.dropWhile_cons_of_pos rfl

theorem hexUnit_low : ∀ n < 0x20, hexUnit '0' '0' (hexDigit (n / 16)) (hexDigit (n % 16)) = some n := by decide

theorem literal_jsonChar (c : Char) (rest : List Char) :
    literal (jsonChar c ++ rest) = (literal rest).map fun found => (codeUnits c ++ found.1, found.2) := by
  unfold jsonChar
  by_cases hquote : c = '"'
  · rw [if_pos hquote, hquote]
    rfl
  rw [if_neg hquote]
  by_cases hslash : c = '\\'
  · rw [if_pos hslash, hslash]
    rfl
  rw [if_neg hslash]
  by_cases hlow : c.toNat < 0x20
  · have hunits : codeUnits c = [c.toNat] := (codeUnits_small (by omega)).1
    have hletter : ∀ {e : Char} {n : Nat}, e ≠ 'u' → escaped e = some n → c.toNat = n →
        literal (['\\', e] ++ rest) = (literal rest).map fun found => (codeUnits c ++ found.1, found.2) := by
      intro e n he hescaped hn
      rw [List.cons_append, List.cons_append, List.nil_append, literal, hescaped, hunits, hn]
      · rfl
      · intro _ _ _ _ _ hu
        exact absurd hu he
    rw [if_pos hlow]
    by_cases hb : c.toNat = 0x08
    · rw [if_pos hb]
      exact hletter (by decide) rfl hb
    rw [if_neg hb]
    by_cases ht : c = '\t'
    · rw [if_pos ht]
      exact hletter (by decide) rfl (by rw [ht]; rfl)
    rw [if_neg ht]
    by_cases hn : c = '\n'
    · rw [if_pos hn]
      exact hletter (by decide) rfl (by rw [hn]; rfl)
    rw [if_neg hn]
    by_cases hf : c.toNat = 0x0C
    · rw [if_pos hf]
      exact hletter (by decide) rfl hf
    rw [if_neg hf]
    by_cases hr : c = '\r'
    · rw [if_pos hr]
      exact hletter (by decide) rfl (by rw [hr]; rfl)
    rw [if_neg hr]
    simp only [List.cons_append, List.nil_append]
    rw [literal, hexUnit_low c.toNat hlow, hunits]
    rfl
  · rw [if_neg hlow, List.singleton_append, literal, if_neg (by simp only [hslash, hlow, or_self, not_false_eq_true])]
    · exact hquote
    · intro _ _ _ _ _ hu
      exact absurd hu hslash
    · intro _ _ hu
      exact absurd hu hslash

theorem literal_quoted (s : String) (rest : List Char) :
    literal (s.toList.flatMap jsonChar ++ '"' :: rest) = some (units s, rest) := by
  unfold units
  induction s.toList with
  | nil => rfl
  | cons c cs ih =>
    rw [List.flatMap_cons, List.append_assoc, literal_jsonChar, ih, List.flatMap_cons]
    rfl

section RoundTrip

variable {integerOf : List Char → Option Int} {numeralOf : Option Int → List Char} {v : JsonValue}

/-- A value without numbers, no object of which has two fields of a name. -/
inductive Plain : JsonValue → Prop
  | null : Plain .null
  | bool (b : Bool) : Plain (.bool b)
  | string (s : String) : Plain (.string s)
  | array {items : List JsonValue} : (∀ item ∈ items, Plain item) → Plain (.array items)
  | object {fields : List (String × JsonValue)} : (fields.map (·.1)).Nodup → (∀ field ∈ fields, Plain field.2) →
      Plain (.object fields)

/-- The text of a value reads back, whatever follows it. -/
def ReadsBack (integerOf : List Char → Option Int) (numeralOf : Option Int → List Char) (v : JsonValue) : Prop :=
  ∀ depth fuel rest, 2 * (stringify numeralOf depth v).length < fuel →
    value integerOf fuel (stringify numeralOf depth v ++ rest) = some (v, rest)

theorem value_newline (fuel depth : Nat) (cs : List Char) :
    value integerOf fuel (newline depth ++ cs) = value integerOf fuel cs := by
  cases fuel with
  | zero => rfl
  | succ fuel => rw [value, value, skip_newline]

theorem value_blank (fuel : Nat) (cs : List Char) : value integerOf fuel (' ' :: cs) = value integerOf fuel cs := by
  cases fuel with
  | zero => rfl
  | succ fuel =>
    rw [value, value]
    rfl

theorem value_array {fuel : Nat} {cs rest : List Char} {c : Char} (hskip : skip cs = c :: rest) (hc : c ≠ ']') :
    value integerOf (fuel + 1) ('[' :: cs) =
      (items integerOf fuel (c :: rest)).map fun found => (JsonValue.array found.1, found.2) := by
  rw [value, skip_cons (by decide)]
  show ((match skip cs with
    | ']' :: after => some (JsonValue.array [], after)
    | others => (items integerOf fuel others).map (fun found => (JsonValue.array found.1, found.2))) :
      Option (JsonValue × List Char)) = _
  rw [hskip]
  split
  · next heq => exact absurd (List.cons.inj heq).1 hc
  · rfl

theorem value_object {fuel : Nat} {cs rest : List Char} {c : Char} (hskip : skip cs = c :: rest) (hc : c ≠ '\x7d') :
    value integerOf (fuel + 1) ('\x7b' :: cs) =
      (fields integerOf fuel (c :: rest)).map fun found => (ofFields found.1, found.2) := by
  rw [value, skip_cons (by decide)]
  show ((match skip cs with
    | '\x7d' :: after => some (JsonValue.object [], after)
    | others => (fields integerOf fuel others).map (fun found => (ofFields found.1, found.2))) :
      Option (JsonValue × List Char)) = _
  rw [hskip]
  split
  · next heq => exact absurd (List.cons.inj heq).1 hc
  · rfl

theorem items_newline (fuel depth : Nat) (cs : List Char) :
    items integerOf fuel (newline depth ++ cs) = items integerOf fuel cs := by
  cases fuel with
  | zero => rfl
  | succ fuel => rw [items, items, value_newline]

theorem fields_newline (fuel depth : Nat) (cs : List Char) :
    fields integerOf fuel (newline depth ++ cs) = fields integerOf fuel cs := by
  cases fuel with
  | zero => rfl
  | succ fuel => rw [fields, fields, skip_newline]

/-- The items of an array read back. -/
theorem items_stringify (depth outer : Nat) {item : JsonValue} {others : List JsonValue}
    (hread : ∀ v ∈ item :: others, ReadsBack integerOf numeralOf v) {fuel : Nat} (rest : List Char)
    (hfuel : 2 * (stringify numeralOf depth item ++ stringifyItems numeralOf depth others).length + 1 < fuel) :
    items integerOf fuel (stringify numeralOf depth item ++ (stringifyItems numeralOf depth others ++
      (newline outer ++ ']' :: rest))) = some (item :: others, rest) := by
  induction others generalizing item fuel with
  | nil =>
    cases fuel with
    | zero => omega
    | succ fuel =>
      simp only [stringifyItems, List.append_nil] at hfuel
      rw [items, hread item (by simp) depth fuel _ (by omega)]
      simp only [stringifyItems, List.nil_append, Option.bind_some, skip_newline]
      rfl
  | cons next others ih =>
    cases fuel with
    | zero => omega
    | succ fuel =>
      simp only [stringifyItems, List.length_append, List.length_cons] at hfuel ih
      have hrest := @ih next (fun v hv => hread v (List.mem_cons_of_mem _ hv)) fuel (by omega)
      rw [items, hread item (by simp) depth fuel _ (by omega)]
      simp only [stringifyItems, List.cons_append, List.append_assoc, Option.bind_some]
      rw [skip_cons (by decide)]
      show (items integerOf fuel _).map (fun found => (item :: found.1, found.2)) = _
      rw [items_newline, hrest]
      rfl

/-- The fields of an object read back. -/
theorem fields_stringify (depth outer : Nat) {field : String × JsonValue} {others : List (String × JsonValue)}
    (hread : ∀ f ∈ field :: others, ReadsBack integerOf numeralOf f.2) {fuel : Nat} (rest : List Char)
    (hfuel : 2 * (stringifyField numeralOf depth field ++ stringifyFields numeralOf depth others).length + 1 < fuel) :
    fields integerOf fuel (stringifyField numeralOf depth field ++ (stringifyFields numeralOf depth others ++
      (newline outer ++ '\x7d' :: rest))) = some (field :: others, rest) := by
  induction others generalizing field fuel with
  | nil =>
    cases fuel with
    | zero => omega
    | succ fuel =>
      obtain ⟨name, v⟩ := field
      simp only [stringifyFields, List.append_nil, stringifyField, List.length_append, List.length_cons] at hfuel
      rw [fields, stringifyField, quoted]
      simp only [stringifyFields, List.nil_append, List.cons_append, List.append_assoc]
      rw [skip_cons (by decide)]
      show (literal _).bind _ = _
      rw [literal_quoted, Option.bind_some, skip_cons (by decide)]
      show (value integerOf fuel _).bind _ = _
      have hitem : ReadsBack integerOf numeralOf v := hread (name, v) (by simp)
      rw [value_blank, hitem depth fuel _ (by omega), Option.bind_some, skip_newline, stringOfUnits_units]
      rfl
  | cons next others ih =>
    cases fuel with
    | zero => omega
    | succ fuel =>
      obtain ⟨name, v⟩ := field
      simp only [stringifyFields, stringifyField, List.length_append, List.length_cons] at hfuel ih
      have hrest := @ih next (fun f hf => hread f (List.mem_cons_of_mem _ hf)) fuel (by omega)
      rw [fields, stringifyField, quoted]
      simp only [stringifyFields, List.nil_append, List.cons_append, List.append_assoc]
      rw [skip_cons (by decide)]
      show (literal _).bind _ = _
      rw [literal_quoted, Option.bind_some, skip_cons (by decide)]
      show (value integerOf fuel _).bind _ = _
      have hitem : ReadsBack integerOf numeralOf v := hread (name, v) (by simp)
      rw [value_blank, hitem depth fuel _ (by omega), Option.bind_some, skip_cons (by decide),
        stringOfUnits_units]
      show (fields integerOf fuel _).map (fun found => ((name, v) :: found.1, found.2)) = _
      rw [fields_newline, hrest]
      rfl

/-- Fields of distinct names stay as they are. -/
theorem setField_foldl {fields : List (String × JsonValue)} (before : List (String × JsonValue))
    (h : ((before ++ fields).map (·.1)).Nodup) : fields.foldl setField before = before ++ fields := by
  induction fields generalizing before with
  | nil => rw [List.append_nil]; rfl
  | cons field fields ih =>
    have hnew : (before.any fun other => other.1 == field.1) = false := by
      rw [List.any_eq_false]
      intro other hother heq
      rw [List.map_append, List.nodup_append] at h
      exact h.2.2 other.1 (List.mem_map_of_mem hother) field.1 (by simp) (beq_iff_eq.mp heq)
    have hset : setField before field = before ++ [field] := by
      unfold setField
      rw [hnew]
      rfl
    rw [List.foldl_cons, hset, ih _ (by rwa [List.append_assoc]), List.append_assoc]
    rfl

theorem stringify_head {v : JsonValue} (h : Plain v) (depth : Nat) :
    ∃ c cs, stringify numeralOf depth v = c :: cs ∧ isBlank c = false ∧ c ≠ ']' := by
  cases h with
  | null => exact ⟨_, _, rfl, by decide, by decide⟩
  | bool b => cases b <;> exact ⟨_, _, rfl, by decide, by decide⟩
  | string s => exact ⟨'"', _, rfl, by decide, by decide⟩
  | @array items _ => cases items <;> exact ⟨'[', _, rfl, by decide, by decide⟩
  | @object fields _ _ => cases fields <;> exact ⟨'\x7b', _, rfl, by decide, by decide⟩

theorem readsBack (h : Plain v) : ReadsBack integerOf numeralOf v := by
  induction h with
  | null =>
    intro depth fuel rest hfuel
    cases fuel with
    | zero => omega
    | succ fuel =>
      simp only [stringify, List.cons_append]
      rw [value, skip_cons (by decide)]
      rfl
  | bool b =>
    intro depth fuel rest hfuel
    cases fuel with
    | zero => omega
    | succ fuel =>
      cases b with
      | true =>
        simp only [stringify, List.cons_append]
        rw [value, skip_cons (by decide)]
        rfl
      | false =>
        simp only [stringify, List.cons_append]
        rw [value, skip_cons (by decide)]
        rfl
  | string s =>
    intro depth fuel rest hfuel
    cases fuel with
    | zero => omega
    | succ fuel =>
      simp only [stringify, quoted, List.cons_append, List.append_assoc, List.nil_append]
      rw [value, skip_cons (by decide)]
      show (literal _).map (fun found => (JsonValue.string (stringOfUnits found.1), found.2)) = _
      rw [literal_quoted, Option.map_some, stringOfUnits_units]
  | @array all hitems ih =>
    intro depth fuel rest hfuel
    cases fuel with
    | zero => omega
    | succ fuel =>
      cases all with
      | nil =>
        simp only [stringify, List.cons_append]
        rw [value, skip_cons (by decide)]
        rfl
      | cons item others =>
        obtain ⟨c, cs, htext, hblank, hclose⟩ :=
          @stringify_head numeralOf _ (hitems item List.mem_cons_self) (depth + 1)
        simp only [stringify, List.length_append, List.length_cons] at hfuel
        have hread := @items_stringify integerOf numeralOf (depth + 1) depth item others ih fuel rest
          (by rw [List.length_append]; omega)
        simp only [stringify, List.cons_append, List.append_assoc, List.nil_append]
        rw [htext, List.cons_append] at hread ⊢
        have hskip := (skip_newline (depth + 1) _).trans (@skip_cons _ (cs ++ (stringifyItems numeralOf (depth + 1) others ++
          (newline depth ++ ']' :: rest))) hblank)
        rw [value_array hskip hclose, hread]
        rfl
  | @object all hnames hfields ih =>
    intro depth fuel rest hfuel
    cases fuel with
    | zero => omega
    | succ fuel =>
      cases all with
      | nil =>
        simp only [stringify, List.cons_append]
        rw [value, skip_cons (by decide)]
        rfl
      | cons field others =>
        simp only [stringify, List.length_append, List.length_cons] at hfuel
        have hread := @fields_stringify integerOf numeralOf (depth + 1) depth field others ih fuel rest
          (by rw [List.length_append]; omega)
        have hhead : ∃ cs, stringifyField numeralOf (depth + 1) field = '"' :: cs := by
          rw [stringifyField, quoted, List.cons_append, List.cons_append]
          exact ⟨_, rfl⟩
        obtain ⟨cs, htext⟩ := hhead
        simp only [stringify, List.cons_append, List.append_assoc, List.nil_append]
        rw [htext, List.cons_append] at hread ⊢
        have hskip := (skip_newline (depth + 1) _).trans (@skip_cons '"' (cs ++ (stringifyFields numeralOf (depth + 1) others ++
          (newline depth ++ '\x7d' :: rest))) (by decide))
        rw [value_object hskip (by decide), hread, Option.map_some, ofFields, setField_foldl [] hnames]
        rfl

/-- What was written reads back. -/
theorem parse_stringify (h : Plain v) :
    parse integerOf (String.ofList (stringify numeralOf 0 v)) = some v := by
  unfold parse
  rw [String.toList_ofList]
  have hback : ReadsBack integerOf numeralOf v := readsBack h
  have hread := hback 0 (2 * (stringify numeralOf 0 v).length + 2) [] (by omega)
  rw [List.append_nil] at hread
  rw [hread]
  rfl

end RoundTrip

end GitCommitsPush.Lib.JsonDocument
