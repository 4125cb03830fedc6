/-
  GitCommitsPush.Lib.QuotedWords — lists of single-quoted words, as one text.

  Words stand in single quotes with blanks between them; a quote in a word is written as a
  closing quote, a backslash and a quote, and an opening quote. `readWords` reads a text one
  character at a time. `readWords_append`: after any text that reads, quoted words read as
  themselves. Space at either end is of no matter (`readWords_trim`).
-/

import GitCommitsPush.Lib.JsText

namespace GitCommitsPush.Lib.QuotedWords

open GitCommitsPush.Lib.JsText

/-! ## Writing -/

def quoteWord (word : List Char) : List Char :=
  '\'' :: (word.flatMap fun c => if c = '\'' then ['\'', '\\', '\'', '\''] else [c]) ++ ['\'']

/-! ## Reading -/

inductive Mode where
  | between
  /-- In a word, what it has so far. -/
  | inside (word : List Char)
  /-- After the quote that ends a word, or one of its parts. -/
  | closed (word : List Char)
  | backslash (word : List Char)
  | escaped (word : List Char)
  deriving DecidableEq, Repr

structure Reader where
  words : List (List Char)
  mode : Mode
  deriving DecidableEq, Repr

def isBlank (c : Char) : Bool := c == ' ' || c == '\t' || c == '\n' || c == '\r'

def readChar (s : Reader) (c : Char) : Option Reader :=
  match s.mode with
  | .between => if isBlank c then some s else if c = '\'' then some { s with mode := .inside [] } else none
  | .inside word => some { s with mode := if c = '\'' then .closed word else .inside (word ++ [c]) }
  | .closed word =>
    if isBlank c then some ⟨s.words ++ [word], .between⟩
    else if c = '\\' then some { s with mode := .backslash word }
    else none
  | .backslash word => if c = '\'' then some { s with mode := .escaped word } else none
  | .escaped word => if c = '\'' then some { s with mode := .inside (word ++ ['\'']) } else none

/-- The words read when the text ends. -/
def finish (s : Reader) : Option (List (List Char)) :=
  match s.mode with
  | .between => some s.words
  | .closed word => some (s.words ++ [word])
  | _ => none

def readFrom (s : Reader) (text : List Char) : Option Reader := text.foldlM readChar s

def readWords (text : List Char) : Option (List (List Char)) := (readFrom ⟨[], .between⟩ text).bind finish

example : readWords " 'a b'  'it'\\''s' ".toList = some ["a b".toList, "it's".toList] := by decide

/-! ## What was written reads back -/

theorem readFrom_append (s : Reader) (a b : List Char) : readFrom s (a ++ b) = (readFrom s a).bind fun t => readFrom t b := by
  unfold readFrom
  rw [List.foldlM_append]
  rfl

theorem readFrom_cons (s : Reader) (c : Char) (cs : List Char) :
    readFrom s (c :: cs) = (readChar s c).bind fun t => readFrom t cs := by
  unfold readFrom
  rw [List.foldlM_cons]
  rfl

theorem readFrom_inside (words : List (List Char)) (before word rest : List Char) :
    readFrom ⟨words, .inside before⟩ ((word.flatMap fun c => if c = '\'' then ['\'', '\\', '\'', '\''] else [c]) ++ rest) =
      readFrom ⟨words, .inside (before ++ word)⟩ rest := by
  induction word generalizing before with
  | nil => rw [List.append_nil]; rfl
  | cons c word ih =>
    rw [List.flatMap_cons, List.append_assoc]
    by_cases hc : c = '\''
    · have hquote := ih (before ++ ['\''])
      rw [if_pos hc, hc]
      rw [List.append_assoc] at hquote
      exact hquote
    · have hplain := ih (before ++ [c])
      rw [if_neg hc, List.singleton_append, readFrom_cons]
      simp only [readChar, if_neg hc, Option.bind_some]
      rw [List.append_assoc] at hplain
      exact hplain

theorem readFrom_quoteWord (words : List (List Char)) (word : List Char) :
    readFrom ⟨words, .between⟩ (quoteWord word) = some ⟨words, .closed word⟩ := by
  unfold quoteWord
  rw [List.cons_append, readFrom_cons]
  show readFrom ⟨words, .inside []⟩ _ = _
  rw [readFrom_inside]
  rfl

/-- Words with a space between them. -/
theorem readFrom_join (words : List (List Char)) {quoted : List (List Char)} (hne : quoted ≠ []) :
    (readFrom ⟨words, .between⟩ (joinWith [' '] (quoted.map quoteWord))).bind finish = some (words ++ quoted) := by
  induction quoted generalizing words with
  | nil => exact absurd rfl hne
  | cons word rest ih =>
    cases rest with
    | nil =>
      rw [List.map_singleton, joinWith, readFrom_quoteWord]
      rfl
    | cons next rest =>
      have hrest := ih (words ++ [word]) (by simp)
      rw [List.append_assoc] at hrest
      rw [List.map_cons, List.map_cons, joinWith, List.append_assoc, readFrom_append, readFrom_quoteWord]
      · exact hrest
      · simp

/-- Where a text of words ends, a blank and more words may follow. -/
theorem finish_blank {s : Reader} {words : List (List Char)} (h : finish s = some words) :
    readChar s ' ' = some ⟨words, .between⟩ := by
  obtain ⟨found, mode⟩ := s
  cases mode with
  | between =>
    cases h
    rfl
  | closed word =>
    cases h
    rfl
  | inside word => cases h
  | backslash word => cases h
  | escaped word => cases h

theorem readWords_append {text : List Char} {words : List (List Char)} (h : readWords text = some words)
    {quoted : List (List Char)} (hne : quoted ≠ []) :
    readWords (text ++ ' ' :: joinWith [' '] (quoted.map quoteWord)) = some (words ++ quoted) := by
  obtain ⟨s, hs, hfinish⟩ := Option.bind_eq_some_iff.mp h
  unfold readWords
  rw [readFrom_append, hs, Option.bind_some, readFrom_cons, finish_blank hfinish]
  exact readFrom_join words hne

/-! ## Space at the ends -/

/-- What `trim` takes is no quote and no backslash. -/
theorem space_plain {c : Char} (h : isSpace c = true) : c ≠ '\'' ∧ c ≠ '\\' := by
  constructor
  · intro hc
    rw [hc] at h
    exact absurd h (by decide)
  · intro hc
    rw [hc] at h
    exact absurd h (by decide)

theorem readWords_trimStart {text : List Char} {words : List (List Char)} (h : readWords text = some words) :
    readWords (trimStart text) = some words := by
  induction text with
  | nil => exact h
  | cons c text ih =>
    unfold trimStart
    by_cases hc : isSpace c = true
    · rw [List.dropWhile_cons_of_pos hc]
      refine ih ?_
      -- between words a space is a blank, or the text does not read
      unfold readWords at h ⊢
      rw [readFrom_cons] at h
      by_cases hblank : isBlank c = true
      · rw [readChar] at h
        dsimp only at h
        rw [if_pos hblank] at h
        exact h
      · rw [readChar] at h
        dsimp only at h
        rw [if_neg hblank, if_neg (space_plain hc).1] at h
        cases h
    · rw [List.dropWhile_cons_of_neg hc]
      exact h

/-- A space at the end adds nothing to a text that reads. -/
theorem finish_space {s : Reader} {c : Char} {words : List (List Char)} (hc : isSpace c = true)
    (h : (readChar s c).bind finish = some words) : finish s = some words := by
  obtain ⟨found, mode⟩ := s
  obtain ⟨hquote, hslash⟩ := space_plain hc
  cases mode with
  | between =>
    unfold readChar at h
    dsimp only at h
    by_cases hblank : isBlank c = true
    · rw [if_pos hblank] at h
      exact h
    · rw [if_neg hblank, if_neg hquote] at h
      cases h
  | inside word =>
    unfold readChar at h
    dsimp only at h
    rw [if_neg hquote] at h
    cases h
  | closed word =>
    unfold readChar at h
    dsimp only at h
    by_cases hblank : isBlank c = true
    · rw [if_pos hblank] at h
      exact h
    · rw [if_neg hblank, if_neg hslash] at h
      cases h
  | backslash word =>
    unfold readChar at h
    dsimp only at h
    rw [if_neg hquote] at h
    cases h
  | escaped word =>
    unfold readChar at h
    dsimp only at h
    rw [if_neg hquote] at h
    cases h

theorem readWords_spaces {text spaces : List Char} (hspaces : ∀ c ∈ spaces, isSpace c = true) {words : List (List Char)}
    (h : readWords (text ++ spaces) = some words) : readWords text = some words := by
  induction spaces generalizing text with
  | nil => rwa [List.append_nil] at h
  | cons c spaces ih =>
    have hone : readWords (text ++ [c]) = some words :=
      ih (fun d hd => hspaces d (List.mem_cons_of_mem c hd)) (by rwa [List.append_assoc])
    unfold readWords at hone ⊢
    rw [readFrom_append] at hone
    cases hread : readFrom ⟨[], .between⟩ text with
    | none =>
      rw [hread] at hone
      cases hone
    | some s =>
      rw [hread, Option.bind_some, readFrom_cons] at hone
      refine finish_space (hspaces c List.mem_cons_self) ?_
      rw [← hone]
      cases readChar s c <;> rfl

theorem readWords_trim {text : List Char} {words : List (List Char)} (h : readWords text = some words) :
    readWords (trim text) = some words := by
  have hstart := readWords_trimStart h
  have hsplit : trimStart text = trimEnd (trimStart text) ++ ((trimStart text).reverse.takeWhile isSpace).reverse := by
    unfold trimEnd
    rw [← List.reverse_append, List.takeWhile_append_dropWhile, List.reverse_reverse]
  rw [hsplit] at hstart
  refine readWords_spaces (fun c hc => ?_) hstart
  exact List.all_eq_true.mp List.all_takeWhile c (List.mem_reverse.mp hc)

end GitCommitsPush.Lib.QuotedWords
