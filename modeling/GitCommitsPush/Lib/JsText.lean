/-
  GitCommitsPush.Lib.JsText — the string and number operations of ECMAScript that the
  source calls, over lists of characters.

  `trim` strips white space and line terminators of both ends; `splitOn c` is
  `split(c)` for a one-character separator and `joinWith` is `join`: splitting undoes
  joining on a separator the parts do not hold (`splitOn_joinWith`). Lengths, slices and
  the default sort go by UTF-16 code units; a slice that cuts a surrogate pair leaves
  the replacement character an encoder writes for the lone half.
-/

namespace GitCommitsPush.Lib.JsText

/-! ## Numbers -/

/-- `Number.MAX_SAFE_INTEGER`. -/
def maxSafeInteger : Int := 9007199254740991

/-- `Number.isSafeInteger` on an integer. -/
def isSafeInteger (n : Int) : Bool := -maxSafeInteger ≤ n && n ≤ maxSafeInteger

/-! ## White space -/

/-- WhiteSpace or LineTerminator: what `trim` strips and `\s` matches. -/
def isSpaceCode (n : Nat) : Bool :=
  (9 ≤ n && n ≤ 13) || n == 0x20 || n == 0xA0 || n == 0x1680 || (0x2000 ≤ n && n ≤ 0x200A) || n == 0x2028 ||
    n == 0x2029 || n == 0x202F || n == 0x205F || n == 0x3000 || n == 0xFEFF

def isSpace (c : Char) : Bool := isSpaceCode c.toNat

def trimStart (s : List Char) : List Char := s.dropWhile isSpace

def trimEnd (s : List Char) : List Char := (s.reverse.dropWhile isSpace).reverse

def trim (s : List Char) : List Char := trimEnd (trimStart s)

/-- What is dropped from the front does not reach past a symbol that stays. -/
theorem dropWhile_stop {α : Type} {p : α → Bool} {a : List α} {c : α} {b : List α} (hc : p c = false) :
    (a ++ c :: b).dropWhile p = a.dropWhile p ++ c :: b := by
  rw [List.dropWhile_append]
  cases hdrop : a.dropWhile p with
  | nil => rw [if_pos List.isEmpty_nil, List.dropWhile_cons, if_neg (by simp [hc]), List.nil_append]
  | cons d tail => rw [if_neg (by simp)]

theorem trimStart_stop {a : List Char} {c : Char} {b : List Char} (hc : isSpace c = false) :
    trimStart (a ++ c :: b) = trimStart a ++ c :: b := dropWhile_stop hc

theorem trimEnd_stop {a : List Char} {c : Char} {b : List Char} (hc : isSpace c = false) :
    trimEnd (a ++ c :: b) = a ++ c :: trimEnd b := by
  unfold trimEnd
  rw [List.reverse_append, List.reverse_cons, List.append_assoc, List.singleton_append, dropWhile_stop hc]
  simp

theorem trimStart_trimStart (s : List Char) : trimStart (trimStart s) = trimStart s := by
  induction s with
  | nil => rfl
  | cons c s ih =>
    unfold trimStart at ih ⊢
    rw [List.dropWhile_cons]
    split
    · exact ih
    · rename_i hc
      rw [List.dropWhile_cons, if_neg hc]

theorem trimEnd_isPrefix (s : List Char) : trimEnd s <+: s := by
  unfold trimEnd
  have h := List.dropWhile_suffix isSpace (l := s.reverse)
  have hprefix := List.reverse_prefix.mpr h
  rwa [List.reverse_reverse] at hprefix

/-- `trim` of a string value. -/
def trimString (s : String) : String := String.ofList (trim s.toList)

/-! ## Searching and case -/

/-- `includes`. -/
def includesChars (needle : List Char) : List Char → Bool
  | [] => needle.isEmpty
  | c :: cs => needle.isPrefixOf (c :: cs) || includesChars needle cs

def includes (s needle : String) : Bool := includesChars needle.toList s.toList

/-- `startsWith`. -/
def startsWith (s p : String) : Bool := p.toList.isPrefixOf s.toList

/-- `endsWith`. -/
def endsWith (s p : String) : Bool := p.toList.isSuffixOf s.toList

/-- `toLowerCase`, exact on what becomes ASCII; other letters are left as they are. -/
def lowerChars (s : List Char) : List Char :=
  s.flatMap fun c =>
    if c.toNat = 0x212A then ['k'] else if c.toNat = 0x130 then ['i', Char.ofNat 0x307]
    else if 'A' ≤ c ∧ c ≤ 'Z' then [Char.ofNat (c.toNat + 32)] else [c]

def toLowerCase (s : String) : String := String.ofList (lowerChars s.toList)

/-! ## `split` and `join` -/

/-- `split` on a single character: one part more than there are separators. -/
def splitOn (sep : Char) : List Char → List (List Char)
  | [] => [[]]
  | c :: cs =>
    if c = sep then [] :: splitOn sep cs
    else match splitOn sep cs with
      | [] => [[c]]
      | p :: ps => (c :: p) :: ps

def joinWith (sep : List Char) : List (List Char) → List Char
  | [] => []
  | [p] => p
  | p :: ps => p ++ sep ++ joinWith sep ps

/-- `join` of string values. -/
def joinStrings (sep : String) (parts : List String) : String :=
  String.ofList (joinWith sep.toList (parts.map String.toList))

/-- `split` of a string value. -/
def splitString (sep : Char) (s : String) : List String := (splitOn sep s.toList).map String.ofList

theorem splitOn_ne_nil (sep : Char) (s : List Char) : splitOn sep s ≠ [] := by
  cases s with
  | nil => simp [splitOn]
  | cons c cs =>
    simp only [splitOn]
    split
    · simp
    · split <;> simp

/-- The first part ends where the separator first stands. -/
theorem splitOn_head (sep : Char) (s : List Char) : (splitOn sep s).head? = some (s.takeWhile (· != sep)) := by
  induction s with
  | nil => rfl
  | cons c s ih =>
    unfold splitOn
    by_cases hc : c = sep
    · rw [if_pos hc, List.takeWhile_cons, if_neg (by simp [hc])]
      rfl
    · rw [if_neg hc, List.takeWhile_cons, if_pos (by simpa using hc)]
      cases hparts : splitOn sep s with
      | nil => exact absurd hparts (splitOn_ne_nil sep s)
      | cons p ps =>
        rw [hparts, List.head?_cons] at ih
        cases ih
        rfl

theorem splitOn_append_sep {sep : Char} {p : List Char} (hp : sep ∉ p) (s : List Char) :
    splitOn sep (p ++ sep :: s) = p :: splitOn sep s := by
  induction p with
  | nil => simp [splitOn]
  | cons c p ih =>
    obtain ⟨hc, hp⟩ := not_or.mp (fun h => hp (List.mem_cons.mpr h))
    simp only [List.cons_append, splitOn, ih hp, if_neg (Ne.symm hc)]

theorem splitOn_eq_singleton {sep : Char} {p : List Char} (hp : sep ∉ p) : splitOn sep p = [p] := by
  induction p with
  | nil => rfl
  | cons c p ih =>
    obtain ⟨hc, hp⟩ := not_or.mp (fun h => hp (List.mem_cons.mpr h))
    simp only [splitOn, ih hp, if_neg (Ne.symm hc)]

/-- Splitting undoes joining when no part holds the separator. -/
theorem splitOn_joinWith {sep : Char} {ps : List (List Char)} (hne : ps ≠ []) (hps : ∀ p ∈ ps, sep ∉ p) :
    splitOn sep (joinWith [sep] ps) = ps := by
  induction ps with
  | nil => exact absurd rfl hne
  | cons p ps ih =>
    have hp := hps p (by simp)
    cases ps with
    | nil => exact splitOn_eq_singleton hp
    | cons q ps =>
      have hrest := ih (by simp) (fun r hr => hps r (List.mem_cons_of_mem _ hr))
      simp only [joinWith, List.append_assoc, List.cons_append, List.nil_append]
      rw [splitOn_append_sep hp, hrest]

/-- Lines without the separator, each ended by it: one empty part is left at the end. -/
theorem splitOn_ended {sep : Char} {lines : List (List Char)} (h : ∀ l ∈ lines, sep ∉ l) :
    splitOn sep (lines.flatMap (· ++ [sep])) = lines ++ [[]] := by
  induction lines with
  | nil => rfl
  | cons l lines ih =>
    have hl := h l List.mem_cons_self
    have ih := ih fun m hm => h m (List.mem_cons_of_mem _ hm)
    rw [List.flatMap_cons, List.append_assoc, List.singleton_append, splitOn_append_sep hl, ih, List.cons_append]

/-! ## UTF-16 -/

def codeUnits (c : Char) : List Nat :=
  if c.toNat < 0x10000 then [c.toNat]
  else [0xD800 + (c.toNat - 0x10000) / 0x400, 0xDC00 + (c.toNat - 0x10000) % 0x400]

/-- `length` of a string value. -/
def length16 (s : String) : Nat := (s.toList.flatMap codeUnits).length

def takeUnits : Nat → List Char → List Char
  | _, [] => []
  | n, c :: cs =>
    let k := (codeUnits c).length
    if k ≤ n then c :: takeUnits (n - k) cs
    else if n = 0 then [] else [Char.ofNat 0xFFFD]

/-- `slice(0, n)`. -/
def slice16 (n : Nat) (s : String) : String := String.ofList (takeUnits n s.toList)

/-- The string of code units; a lone half of a pair is the replacement character. -/
def ofUnits : List Nat → List Char
  | [] => []
  | u :: rest =>
    if 0xD800 ≤ u ∧ u < 0xDC00 then match rest with
      | v :: rest' =>
        if 0xDC00 ≤ v ∧ v < 0xE000 then Char.ofNat (0x10000 + (u - 0xD800) * 0x400 + (v - 0xDC00)) :: ofUnits rest'
        else Char.ofNat 0xFFFD :: ofUnits (v :: rest')
      | [] => [Char.ofNat 0xFFFD]
    else if 0xDC00 ≤ u ∧ u < 0xE000 then Char.ofNat 0xFFFD :: ofUnits rest
    else Char.ofNat u :: ofUnits rest

theorem codeUnits_small {c : Char} (h : c.toNat < 0x10000) :
    codeUnits c = [c.toNat] ∧ (c.toNat < 0xD800 ∨ 0xDFFF < c.toNat) := by
  unfold codeUnits
  rw [if_pos h]
  have hvalid := c.valid
  simp only [UInt32.isValidChar, Nat.isValidChar] at hvalid
  rcases hvalid with hvalid | hvalid
  · exact ⟨rfl, .inl hvalid⟩
  · exact ⟨rfl, .inr hvalid.1⟩

theorem codeUnits_large {c : Char} (h : ¬c.toNat < 0x10000) :
    ∃ high low, codeUnits c = [high, low] ∧ (0xD800 ≤ high ∧ high < 0xDC00) ∧ (0xDC00 ≤ low ∧ low < 0xE000) ∧
      0x10000 + (high - 0xD800) * 0x400 + (low - 0xDC00) = c.toNat := by
  have hvalid : c.toNat < 0x110000 := by
    have hvalid := c.valid
    simp only [UInt32.isValidChar, Nat.isValidChar] at hvalid
    have htoNat : c.toNat = c.val.toNat := rfl
    omega
  unfold codeUnits
  rw [if_neg h]
  exact ⟨_, _, rfl, by omega, by omega, by omega⟩

/-- Decoding undoes encoding. -/
theorem ofUnits_codeUnits (cs : List Char) : ofUnits (cs.flatMap codeUnits) = cs := by
  induction cs with
  | nil => rfl
  | cons c cs ih =>
    rw [List.flatMap_cons]
    by_cases h : c.toNat < 0x10000
    · obtain ⟨hunits, hrange⟩ := codeUnits_small h
      rw [hunits, List.singleton_append]
      unfold ofUnits
      rw [if_neg (by omega), if_neg (by omega), ih, Char.ofNat_toNat]
    · obtain ⟨high, low, hunits, hhigh, hlow, hcode⟩ := codeUnits_large h
      rw [hunits, List.cons_append, List.singleton_append]
      unfold ofUnits
      rw [if_pos hhigh]
      dsimp only
      rw [if_pos hlow, hcode, ih, Char.ofNat_toNat]

/-- A unit that is no half of a pair is a character, and the text splits there. -/
theorem codeUnits_split {cs : List Char} {a b : List Nat} {x : Nat} (h : cs.flatMap codeUnits = a ++ x :: b)
    (hx : x < 0xD800 ∨ 0xDFFF < x) : ∃ as c bs, cs = as ++ c :: bs ∧ as.flatMap codeUnits = a ∧ c.toNat = x ∧
      bs.flatMap codeUnits = b := by
  induction cs generalizing a with
  | nil => simp at h
  | cons c cs ih =>
    rw [List.flatMap_cons] at h
    by_cases hc : c.toNat < 0x10000
    · rw [(codeUnits_small hc).1, List.singleton_append] at h
      cases a with
      | nil =>
        obtain ⟨hcode, hrest⟩ := List.cons.inj h
        exact ⟨[], c, cs, rfl, rfl, hcode, hrest⟩
      | cons u a =>
        obtain ⟨hcode, hrest⟩ := List.cons.inj h
        obtain ⟨as, d, bs, rfl, ha, hd, hb⟩ := ih hrest
        exact ⟨c :: as, d, bs, rfl, by rw [List.flatMap_cons, (codeUnits_small hc).1, ha, hcode]; rfl, hd, hb⟩
    · obtain ⟨high, low, hunits, hhigh, hlow, _⟩ := codeUnits_large hc
      rw [hunits] at h
      match a, h with
      | [], h =>
        have hhead : high = x := (List.cons.inj h).1
        omega
      | [u], h =>
        have hsecond : low = x := (List.cons.inj (List.cons.inj h).2).1
        omega
      | u :: v :: a, h =>
        obtain ⟨hu, h⟩ := List.cons.inj h
        obtain ⟨hv, hrest⟩ := List.cons.inj h
        obtain ⟨as, d, bs, rfl, ha, hd, hb⟩ := ih hrest
        exact ⟨c :: as, d, bs, rfl, by rw [List.flatMap_cons, hunits, ha, hu, hv]; rfl, hd, hb⟩

/-- The UTF-8 bytes of a character. -/
def utf8Bytes (c : Char) : List Nat :=
  let n := c.toNat
  if n < 0x80 then [n]
  else if n < 0x800 then [0xC0 + n / 0x40, 0x80 + n % 0x40]
  else if n < 0x10000 then [0xE0 + n / 0x1000, 0x80 + n / 0x40 % 0x40, 0x80 + n % 0x40]
  else [0xF0 + n / 0x40000, 0x80 + n / 0x1000 % 0x40, 0x80 + n / 0x40 % 0x40, 0x80 + n % 0x40]

/-- The order of the default `sort`. -/
def unitsLe (a b : String) : Bool := !((b.toList.flatMap codeUnits) < (a.toList.flatMap codeUnits) : Bool)

/-! ## `JSON.stringify` -/

def hexDigit (n : Nat) : Char := "0123456789abcdef".toList.getD n '0'

/-- A character of a JSON string literal. -/
def jsonChar (c : Char) : List Char :=
  if c = '"' then ['\\', '"']
  else if c = '\\' then ['\\', '\\']
  else if c.toNat < 0x20 then
    if c.toNat = 0x08 then ['\\', 'b']
    else if c = '\t' then ['\\', 't']
    else if c = '\n' then ['\\', 'n']
    else if c.toNat = 0x0C then ['\\', 'f']
    else if c = '\r' then ['\\', 'r']
    else ['\\', 'u', '0', '0', hexDigit (c.toNat / 16), hexDigit (c.toNat % 16)]
  else [c]

/-- `JSON.stringify` of a string value. -/
def jsonString (s : String) : String := String.ofList ('"' :: s.toList.flatMap jsonChar ++ ['"'])

def jsonNullable : Option String → String
  | none => "null"
  | some s => jsonString s

def jsonArray (items : List String) : String := "[" ++ joinStrings "," items ++ "]"

end GitCommitsPush.Lib.JsText
