/-
  GitCommitsPush.Lib.PercentDecoding — `decodeURI`.

  An escaped octet of ASCII is its character, unless that is reserved: then the escape stays.
  Other octets are the UTF-8 of one character. Anything else is no text (`URIError`).

  A text may be cut where no escape runs over the cut (`decodeURI_append`): before a character
  that is neither `%` nor a hexadecimal digit. What has no `%` is its own decoding
  (`decodeURI_plain_append`).
-/

import GitCommitsPush.Lib.JsText

namespace GitCommitsPush.Lib.PercentDecoding

open GitCommitsPush.Lib.JsText

def hexValue (c : Char) : Option Nat :=
  if c.isDigit then some (c.toNat - '0'.toNat)
  else if 'a' ≤ c ∧ c ≤ 'f' then some (c.toNat - 'a'.toNat + 10)
  else if 'A' ≤ c ∧ c ≤ 'F' then some (c.toNat - 'A'.toNat + 10)
  else none

/-- The octet an escape stands for, and what follows. -/
def octet : List Char → Option (Nat × List Char)
  | c :: high :: low :: rest =>
    if c = '%' then (hexValue high).bind fun high => (hexValue low).map fun low => (16 * high + low, rest) else none
  | _ => none

/-- As many octets, each of them escaped. -/
def octets : Nat → List Char → Option (List Nat × List Char)
  | 0, cs => some ([], cs)
  | n + 1, cs => (octet cs).bind fun first => (octets n first.2).map fun others => (first.1 :: others.1, others.2)

/-- How many octets follow the first of a character. -/
def following (first : Nat) : Option Nat :=
  if first < 0x80 then some 0 else if first < 0xC0 then none else if first < 0xE0 then some 1
  else if first < 0xF0 then some 2 else if first < 0xF8 then some 3 else none

/-- The number that octets of UTF-8 spell. -/
def spelled (first : Nat) (others : List Nat) : Nat :=
  others.foldl (fun n other => n * 0x40 + other % 0x40) (first % (0x40 >>> others.length))

def reserved : List Char := ";/?:@&=+$,#".toList

/-- The escape at the head of a text: what it stands for, and what follows. -/
def escape (cs : List Char) : Option (List Char × List Char) :=
  (octet cs).bind fun first => (following first.1).bind fun count =>
    if count = 0 then some (if Char.ofNat first.1 ∈ reserved then cs.take 3 else [Char.ofNat first.1], first.2)
    else (octets count first.2).bind fun others =>
      let c := Char.ofNat (spelled first.1 others.1)
      if utf8Bytes c = first.1 :: others.1 then some ([c], others.2) else none

def decode : Nat → List Char → Option (List Char)
  | _, [] => some []
  | 0, _ => none
  | fuel + 1, c :: cs =>
    if c = '%' then (escape (c :: cs)).bind fun found => (decode fuel found.2).map (found.1 ++ ·)
    else (decode fuel cs).map (c :: ·)

/-- `decodeURI`. -/
def decodeURI (text : List Char) : Option (List Char) := decode text.length text

example : decodeURI "/a%20b%2Fc%C3%A9".toList = some "/a b%2Fcé".toList := by decide

example : decodeURI "/a%E2%82".toList = none := by decide

/-! ## Cutting a text -/

/-- No escape runs on into the text. -/
def Cut (rest : List Char) : Prop := ∀ c ∈ rest.head?, c ≠ '%' ∧ hexValue c = none

theorem octet_length {cs : List Char} {found : Nat × List Char} (h : octet cs = some found) : found.2.length + 3 = cs.length := by
  match cs with
  | [] | [_] | [_, _] => cases h
  | c :: high :: low :: rest =>
    rw [octet] at h
    by_cases hc : c = '%'
    · rw [if_pos hc] at h
      obtain ⟨high, -, h⟩ := Option.bind_eq_some_iff.mp h
      obtain ⟨low, -, rfl⟩ := Option.map_eq_some_iff.mp h
      rfl
    · rw [if_neg hc] at h
      cases h

theorem octet_append (cs : List Char) {rest : List Char} (hrest : Cut rest) :
    octet (cs ++ rest) = (octet cs).map fun found => (found.1, found.2 ++ rest) := by
  match cs with
  | [] =>
    match rest with
    | [] | [_] | [_, _] => rfl
    | c :: high :: low :: rest => exact if_neg (hrest c rfl).1
  | [c] =>
    match rest with
    | [] | [_] => rfl
    | high :: low :: rest =>
      rw [List.singleton_append, octet, (hrest high rfl).2]
      exact ite_self none
  | [c, high] =>
    match rest with
    | [] => rfl
    | low :: rest =>
      rw [List.cons_append, List.singleton_append, octet, (hrest low rfl).2]
      cases hexValue high <;> exact ite_self none
  | c :: high :: low :: cs =>
    rw [List.cons_append, List.cons_append, List.cons_append, octet, octet]
    by_cases hc : c = '%'
    · rw [if_pos hc, if_pos hc]
      cases hexValue high with
      | none => rfl
      | some high => cases hexValue low <;> rfl
    · rw [if_neg hc, if_neg hc]
      rfl

theorem octets_append (n : Nat) (cs : List Char) {rest : List Char} (hrest : Cut rest) :
    octets n (cs ++ rest) = (octets n cs).map fun found => (found.1, found.2 ++ rest) := by
  induction n generalizing cs with
  | zero => rfl
  | succ n ih =>
    rw [octets, octets, octet_append cs hrest]
    cases octet cs with
    | none => rfl
    | some first =>
      show (octets n (first.2 ++ rest)).map _ = ((octets n first.2).map _).map _
      rw [ih]
      cases octets n first.2 <;> rfl

theorem octets_length {n : Nat} {cs : List Char} {found : List Nat × List Char} (h : octets n cs = some found) :
    found.2.length ≤ cs.length := by
  induction n generalizing cs found with
  | zero => cases h; exact Nat.le_refl _
  | succ n ih =>
    rw [octets] at h
    obtain ⟨first, hfirst, h⟩ := Option.bind_eq_some_iff.mp h
    obtain ⟨others, hothers, rfl⟩ := Option.map_eq_some_iff.mp h
    have hlength := octet_length hfirst
    have hle := ih hothers
    show others.2.length ≤ _
    omega

theorem escape_append (cs : List Char) {rest : List Char} (hrest : Cut rest) :
    escape (cs ++ rest) = (escape cs).map fun found => (found.1, found.2 ++ rest) := by
  unfold escape
  rw [octet_append cs hrest]
  cases hfirst : octet cs with
  | none => rfl
  | some first =>
    have hlength := octet_length hfirst
    show (following first.1).bind _ = ((following first.1).bind _).map _
    cases following first.1 with
    | none => rfl
    | some count =>
      show (if count = 0 then _ else _) = (if count = 0 then _ else _ : Option _).map _
      by_cases hcount : count = 0
      · rw [if_pos hcount, if_pos hcount, List.take_append_of_le_length (by omega)]
        rfl
      · rw [if_neg hcount, if_neg hcount, octets_append count first.2 hrest]
        cases octets count first.2 with
        | none => rfl
        | some others =>
          show (if _ then _ else _) = (if _ then _ else _ : Option _).map _
          dsimp only
          split
          · rfl
          · rfl

theorem escape_length {cs : List Char} {found : List Char × List Char} (h : escape cs = some found) : found.2.length < cs.length := by
  unfold escape at h
  obtain ⟨first, hfirst, h⟩ := Option.bind_eq_some_iff.mp h
  obtain ⟨count, -, h⟩ := Option.bind_eq_some_iff.mp h
  have hlength := octet_length hfirst
  by_cases hcount : count = 0
  · rw [if_pos hcount] at h
    cases h
    show first.2.length < _
    omega
  · rw [if_neg hcount] at h
    obtain ⟨others, hothers, h⟩ := Option.bind_eq_some_iff.mp h
    have hle := octets_length hothers
    dsimp only at h
    split at h
    · cases h
      show others.2.length < _
      omega
    · cases h

/-- More fuel than the text is long changes nothing. -/
theorem decode_fuel {fuel fuel' : Nat} {cs : List Char} (h : cs.length ≤ fuel) (h' : cs.length ≤ fuel') : decode fuel cs = decode fuel' cs := by
  induction fuel generalizing fuel' cs with
  | zero =>
    cases cs with
    | nil => cases fuel' <;> rfl
    | cons c cs => cases h
  | succ fuel ih =>
    cases cs with
    | nil => cases fuel' <;> rfl
    | cons c cs =>
      cases fuel' with
      | zero => cases h'
      | succ fuel' =>
        rw [List.length_cons] at h h'
        rw [decode, decode, @ih fuel' cs (by omega) (by omega)]
        cases hescape : escape (c :: cs) with
        | none => rfl
        | some found =>
          have hshorter := escape_length hescape
          rw [List.length_cons] at hshorter
          show (if c = '%' then (decode fuel found.2).map _ else _) = _
          rw [@ih fuel' found.2 (by omega) (by omega)]
          rfl

/-- A text that is cut decodes piece by piece. -/
theorem decode_append {fuel : Nat} {cs rest : List Char} (hfuel : (cs ++ rest).length ≤ fuel) (hrest : Cut rest) :
    decode fuel (cs ++ rest) = (decode fuel cs).bind fun text => (decode fuel rest).map (text ++ ·) := by
  induction fuel generalizing cs with
  | zero =>
    have hnil : cs ++ rest = [] := List.length_eq_zero_iff.mp (Nat.le_zero.mp hfuel)
    obtain ⟨rfl, rfl⟩ := List.append_eq_nil_iff.mp hnil
    rfl
  | succ fuel ih =>
    rw [List.length_append] at hfuel
    cases cs with
    | nil =>
      show decode (fuel + 1) rest = (decode (fuel + 1) rest).map _
      cases decode (fuel + 1) rest <;> rfl
    | cons c cs =>
      rw [List.length_cons] at hfuel
      have hlater : decode (fuel + 1) rest = decode fuel rest := decode_fuel (by omega) (by omega)
      rw [hlater, decode, List.cons_append, decode]
      by_cases hc : c = '%'
      · rw [if_pos hc, if_pos hc, ← List.cons_append, escape_append (c :: cs) hrest]
        cases hescape : escape (c :: cs) with
        | none => rfl
        | some found =>
          have hshorter := escape_length hescape
          rw [List.length_cons] at hshorter
          show (decode fuel (found.2 ++ rest)).map (found.1 ++ ·) = ((decode fuel found.2).map _).bind _
          rw [ih (by rw [List.length_append]; omega)]
          cases decode fuel found.2 with
          | none => rfl
          | some text =>
            show ((decode fuel rest).map _).map _ = (decode fuel rest).map _
            cases decode fuel rest with
            | none => rfl
            | some tail => exact congrArg some (List.append_assoc found.1 text tail).symm
      · rw [if_neg hc, if_neg hc, ih (by rw [List.length_append]; omega)]
        cases decode fuel cs with
        | none => rfl
        | some text =>
          show ((decode fuel rest).map _).map _ = (decode fuel rest).map _
          cases decode fuel rest <;> rfl

theorem decodeURI_append {cs rest : List Char} (hrest : Cut rest) :
    decodeURI (cs ++ rest) = (decodeURI cs).bind fun text => (decodeURI rest).map (text ++ ·) := by
  unfold decodeURI
  rw [decode_append (Nat.le_refl _) hrest, @decode_fuel _ cs.length cs (by simp) (Nat.le_refl _),
    @decode_fuel _ rest.length rest (by simp) (Nat.le_refl _)]

theorem decodeURI_plain_append {cs : List Char} (h : '%' ∉ cs) (rest : List Char) :
    decodeURI (cs ++ rest) = (decodeURI rest).map (cs ++ ·) := by
  induction cs with
  | nil => simp
  | cons c cs ih =>
    obtain ⟨hc, hcs⟩ := not_or.mp fun hmem => h (List.mem_cons.mpr hmem)
    unfold decodeURI at ih ⊢
    rw [List.cons_append, List.length_cons, decode, if_neg (Ne.symm hc), ih hcs]
    cases decode rest.length rest <;> rfl

end GitCommitsPush.Lib.PercentDecoding
