/-
  GitCommitsPush.Lib.Regex — regular expressions with the matching order of ECMAScript.

  An expression runs over a list of symbols: UTF-16 code units, or code points under the
  `u` flag. `threads` lists every way it can match at a place, the preferred one first,
  so the match is the head and backtracking is the rest of the list. Classes are
  predicates on symbols; the `i` flag is in the predicate.

  An iteration that consumes nothing ends a quantifier once its minimum is met, and each
  iteration forgets the groups inside it.
-/

import GitCommitsPush.Lib.JsText

namespace GitCommitsPush.Lib.Regex

open GitCommitsPush.Lib.JsText

/-- A place in the input: what is before it, nearest first, and what is after. -/
structure Place where
  before : List Nat
  after : List Nat
  deriving DecidableEq, Repr

abbrev Captures := List (Nat × List Nat)

abbrev Thread := Place × Captures

inductive Re where
  | empty
  | one (p : Nat → Bool)
  | seq (a b : Re)
  | alt (a b : Re)
  | rep (r : Re) (min : Nat) (max : Option Nat) (greedy : Bool)
  | group (n : Nat) (r : Re)
  | atStart
  | atEnd
  | wordBoundary (isWord : Nat → Bool)
  | ahead (positive : Bool) (r : Re)

namespace Re

/-- The groups of an expression. -/
def groups : Re → List Nat
  | seq a b | alt a b => a.groups ++ b.groups
  | rep r _ _ _ | ahead _ r => r.groups
  | group n r => n :: r.groups
  | _ => []

end Re

/-! ## Matching -/

def forget (names : List Nat) (t : Thread) : Thread := (t.1, t.2.filter fun c => !names.contains c.1)

/-- What is between two places of one input. -/
def between (start finish : Place) : List Nat := start.after.take (start.after.length - finish.after.length)

/-- The threads of a quantifier. Every iteration beyond the minimum consumes a symbol, so
    `min + after.length + 1` is fuel enough. -/
def repeatThreads (step : Thread → List Thread) (greedy : Bool) : Nat → Nat → Option Nat → Thread → List Thread
  | 0, _, _, _ => []
  | fuel + 1, min, max, t =>
    if max = some 0 then [t]
    else
      let further := (step t).flatMap fun t' =>
        if min = 0 ∧ t'.1.after.length = t.1.after.length then []
        else repeatThreads step greedy fuel (min - 1) (max.map (· - 1)) t'
      if min > 0 then further else if greedy then further ++ [t] else t :: further

def threads : Re → Thread → List Thread
  | .empty, t => [t]
  | .one p, (⟨before, after⟩, captures) => match after with
    | c :: rest => if p c then [(⟨c :: before, rest⟩, captures)] else []
    | [] => []
  | .seq a b, t => (threads a t).flatMap (threads b)
  | .alt a b, t => threads a t ++ threads b t
  | .rep r min max greedy, t =>
    repeatThreads (fun t => threads r (forget r.groups t)) greedy (min + t.1.after.length + 1) min max t
  | .group n r, t => (threads r t).map fun t' => (t'.1, (n, between t.1 t'.1) :: t'.2.filter (·.1 != n))
  | .atStart, t => if t.1.before = [] then [t] else []
  | .atEnd, t => if t.1.after = [] then [t] else []
  | .wordBoundary isWord, t => if t.1.before.head?.any isWord != t.1.after.head?.any isWord then [t] else []
  | .ahead true r, t => match threads r t with
    | t' :: _ => [(t.1, t'.2)]
    | [] => []
  | .ahead false r, t => if (threads r t).isEmpty then [t] else []

/-- The places of an input, from one on. -/
def placesFrom (before : List Nat) : List Nat → List Place
  | [] => [⟨before, []⟩]
  | c :: rest => ⟨before, c :: rest⟩ :: placesFrom (c :: before) rest

/-- The leftmost match from a place on: where it starts and how it ends. -/
def execFrom (r : Re) (place : Place) : Option (Place × Thread) :=
  (placesFrom place.before place.after).findSome? fun p => ((threads r (p, [])).head?).map (p, ·)

/-- `RegExp.prototype.exec`. -/
def exec (r : Re) (input : List Nat) : Option (Place × Thread) := execFrom r ⟨[], input⟩

/-- `RegExp.prototype.test`. -/
def test (r : Re) (input : List Nat) : Bool := (exec r input).isSome

/-- Group `n` of a match. -/
def capture (n : Nat) (t : Thread) : Option (List Nat) := (t.2.find? (·.1 == n)).map (·.2)

/-- `replace` with a global expression; every round moves on, so the input's length is
    fuel enough. -/
def replaceFrom (r : Re) (replacement : Thread → List Nat) : Nat → Place → List Nat
  | 0, place => place.after
  | fuel + 1, place => match execFrom r place with
    | none => place.after
    | some (start, t) =>
      between place start ++ replacement t ++
        if t.1.after.length < start.after.length then replaceFrom r replacement fuel t.1
        else match t.1.after with
          | [] => []
          | c :: rest => c :: replaceFrom r replacement fuel ⟨c :: t.1.before, rest⟩

def replaceAll (r : Re) (replacement : Thread → List Nat) (input : List Nat) : List Nat :=
  replaceFrom r replacement (input.length + 1) ⟨[], input⟩

/-! ## Building expressions -/

def inRange (low high : Char) (c : Nat) : Bool := low.toNat ≤ c && c ≤ high.toNat

def among (chars : String) (c : Nat) : Bool := chars.toList.any (·.toNat == c)

def isDigit : Nat → Bool := inRange '0' '9'

/-- `\w`. -/
def isWord (c : Nat) : Bool := inRange 'a' 'z' c || inRange 'A' 'Z' c || isDigit c || c == '_'.toNat

/-- `\w` under the flags `i` and `u`: LONG S and KELVIN SIGN fold to letters. -/
def isWordFolded (c : Nat) : Bool := isWord c || c == 0x17F || c == 0x212A

def isLineTerminator (c : Nat) : Bool := c == 0x0A || c == 0x0D || c == 0x2028 || c == 0x2029

/-- `.`. -/
def anyChar : Re := .one (!isLineTerminator ·)

/-- The ASCII letter a symbol equals under the flag `i`, in lower case. -/
def lowerAscii (c : Nat) : Nat := if inRange 'A' 'Z' c then c + 32 else c

/-- The same under the flags `i` and `u`. -/
def foldAscii (c : Nat) : Nat := if c == 0x17F then 's'.toNat else if c == 0x212A then 'k'.toNat else lowerAscii c

def seqAll : List Re → Re
  | [] => .empty
  | [r] => r
  | r :: rs => .seq r (seqAll rs)

def altAll : List Re → Re
  | [] => .empty
  | [r] => r
  | r :: rs => .alt r (altAll rs)

def lit (text : String) : Re := seqAll (text.toList.map fun d => .one (· == d.toNat))

/-- Text of lower case under the flag `i`. -/
def litI (text : String) : Re := seqAll (text.toList.map fun d => .one (lowerAscii · == d.toNat))

/-- Text of lower case under the flags `i` and `u`. -/
def litFolded (text : String) : Re := seqAll (text.toList.map fun d => .one (foldAscii · == d.toNat))

def star (p : Nat → Bool) : Re := .rep (.one p) 0 none true

def plus (p : Nat → Bool) : Re := .rep (.one p) 1 none true

def optional (r : Re) : Re := .rep r 0 (some 1) true

/-- `{n,}`. -/
def atLeast (n : Nat) (p : Nat → Bool) : Re := .rep (.one p) n none true

/-- `{n}`. -/
def exactly (n : Nat) (p : Nat → Bool) : Re := .rep (.one p) n (some n) true

/-! ## Strings as symbols -/

def units (s : String) : List Nat := s.toList.flatMap codeUnits

def points (s : String) : List Nat := s.toList.map Char.toNat

def stringOfUnits (us : List Nat) : String := String.ofList (ofUnits us)

theorem stringOfUnits_units (s : String) : stringOfUnits (units s) = s := by
  unfold stringOfUnits units
  rw [ofUnits_codeUnits, String.ofList_toList]

def stringOfPoints (ps : List Nat) : String := String.ofList (ps.map Char.ofNat)

example : (exec (.seq (.group 1 (.rep anyChar 0 none false)) (.seq (optional (lit "'")) .atEnd)) (units "ab'")).map
    (fun m => capture 1 m.2) = some (some (units "ab")) := by decide

end GitCommitsPush.Lib.Regex
