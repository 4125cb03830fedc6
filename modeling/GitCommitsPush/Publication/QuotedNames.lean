/-
  GitCommitsPush.Publication.QuotedNames — which file names survive the quoting of the
  retry commands.

  The names reach a shell between double quotes, quoted as JSON (`addCommand`) or with
  only their double quotes escaped (`diffCommand`). `plainInAdd` and `plainInDiff` say
  character by character when a shell reads such a word back as the name:
  - a backquote, or a `$` that starts an expansion, is never plain;
  - JSON writes a control character as an escape the shell does not undo;
  - a lone backslash is lost before an escapable character, and takes the closing quote.

  A plain name is marked as itself (`mark_json`, `mark_escaped`); the converse for
  `diffCommand` counts backslashes, of which a name read back unchanged loses none.
-/

import GitCommitsPush.Lib.PosixShell
import GitCommitsPush.Publication.RemainingDiff

namespace GitCommitsPush.Publication

open GitCommitsPush.Lib.JsText
open GitCommitsPush.Lib.PosixShell

/-! ## Plain names -/

/-- A shell runs or expands something within double quotes at `c`. -/
def expandsAt (c : Char) (rest : List Char) : Bool := c == backquote || (c == '$' && startsExpansion rest)

/-- A backslash before `rest` is not the character itself within double quotes. -/
def escapesAt : List Char → Bool
  | [] => true
  | d :: _ => isEscapable d || d == '\n'

def plainInAdd : List Char → Bool
  | [] => true
  | c :: cs => 0x20 ≤ c.toNat && !expandsAt c cs && plainInAdd cs

def plainInDiff : List Char → Bool
  | [] => true
  | c :: cs => !expandsAt c cs && !(c == '\\' && escapesAt cs) && plainInDiff cs

/-- Both quoters keep the name. -/
def Plain (f : String) : Prop := plainInAdd f.toList = true ∧ plainInDiff f.toList = true

instance (f : String) : Decidable (Plain f) := inferInstanceAs (Decidable (_ ∧ _))

/-! ## JSON within double quotes -/

/-- How a shell marks the JSON of one character. -/
def jsonMarks (c : Char) : List Mark :=
  if c = '"' ∨ c = '\\' then [('\\', .escape), (c, .escaped)] else (jsonChar c).map (·, .literal)

/-- Neither a quote nor the start of anything within double quotes. -/
def isPlainChar (c : Char) : Bool := c != '"' && c != backquote && c != '\\' && c != '$'

theorem mark_plainChars {run : List Char} (h : run.all isPlainChar = true) (text : List Char) :
    mark .doubleQuoted (run ++ text) = (mark .doubleQuoted text).map (run.map (·, Role.literal) ++ ·) := by
  induction run with
  | nil => simp
  | cons c run ih =>
    simp only [List.all_cons, Bool.and_eq_true, isPlainChar, bne_iff_ne, ne_eq] at h
    obtain ⟨⟨⟨⟨h1, h2⟩, h3⟩, h4⟩, hrun⟩ := h
    rw [List.cons_append, mark_doubleQuoted_literal ⟨h1, h2, h3⟩ (fun h => absurd h h4),
      ih (by simpa [isPlainChar] using hrun), Option.map_map]
    rfl

theorem forall_control {P : Char → Prop} (h : ∀ n : Nat, n < 0x20 → P (Char.ofNat n)) (c : Char) (hc : c.toNat < 0x20) :
    P c := by
  have hp := h c.toNat hc
  rwa [Char.ofNat_toNat] at hp

/-- JSON writes a control character as a backslash that a shell keeps, and plain ones. -/
theorem jsonChar_control (c : Char) (hc : c.toNat < 0x20) : ∃ d run, jsonChar c = '\\' :: d :: run ∧
    isEscapable d = false ∧ d ≠ '\n' ∧ (d :: run).all isPlainChar = true ∧ c ≠ '"' ∧ c ≠ '\\' ∧ expandsAt c [] = false := by
  have hshape : (jsonChar c).head? = some '\\' ∧ (jsonChar c).tail ≠ [] ∧
      (jsonChar c).tail.head?.all (fun d => !isEscapable d && d != '\n') = true ∧
      (jsonChar c).tail.all isPlainChar = true := by
    revert c
    exact forall_control (by decide)
  have hc' : c ≠ '"' ∧ c ≠ '\\' ∧ expandsAt c [] = false := by
    revert c
    exact forall_control (by decide)
  obtain ⟨hhead, htail, hfirst, hplain⟩ := hshape
  cases hj : jsonChar c with
  | nil => rw [hj] at hhead; cases hhead
  | cons b rest =>
    rw [hj] at hhead htail hfirst hplain
    cases Option.some.inj hhead
    cases rest with
    | nil => exact absurd rfl htail
    | cons d run =>
      have hd : isEscapable d = false ∧ d ≠ '\n' := by simpa using hfirst
      exact ⟨d, run, rfl, hd.1, hd.2, hplain, hc'⟩

theorem jsonChar_printable {c : Char} (hq : c ≠ '"') (hb : c ≠ '\\') (hc : ¬ c.toNat < 0x20) : jsonChar c = [c] := by
  simp only [jsonChar, if_neg hq, if_neg hb, if_neg hc]

theorem expandsAt_congr {c : Char} {rest rest' : List Char} (h : startsExpansion rest = startsExpansion rest') :
    expandsAt c rest = expandsAt c rest' := by
  simp only [expandsAt, h]

theorem startsExpansion_control (c : Char) (hc : c.toNat < 0x20) (cs : List Char) : startsExpansion (c :: cs) = false := by
  have hall : ∀ n : Nat, n < 0x20 → startsExpansion [Char.ofNat n] = false := by decide
  exact forall_control (P := fun c => startsExpansion [c] = false) hall c hc

theorem startsExpansion_json (cs rest : List Char) :
    startsExpansion (cs.flatMap jsonChar ++ '"' :: rest) = startsExpansion cs := by
  cases cs with
  | nil => rfl
  | cons c cs =>
    rw [List.flatMap_cons, List.append_assoc]
    by_cases hc : c.toNat < 0x20
    · obtain ⟨d, run, hj, -⟩ := jsonChar_control c hc
      rw [hj, startsExpansion_control c hc]
      rfl
    by_cases hq : c = '"'
    · subst hq; rfl
    by_cases hb : c = '\\'
    · subst hb; rfl
    rw [jsonChar_printable hq hb hc]
    rfl

theorem mark_jsonChar (c : Char) (text : List Char) : mark .doubleQuoted (jsonChar c ++ text) =
    if expandsAt c text = true then none else (mark .doubleQuoted text).map (jsonMarks c ++ ·) := by
  by_cases hc : c.toNat < 0x20
  · obtain ⟨d, run, hj, he, hn, hplain, hq, hb, hx⟩ := jsonChar_control c hc
    have hx' : expandsAt c text = false := by
      have hd : c ≠ '$' := by rintro rfl; exact absurd hc (by decide)
      simpa [expandsAt, hd] using hx
    have hm : jsonMarks c = (jsonChar c).map (·, Role.literal) := by simp [jsonMarks, hq, hb]
    rw [hx', if_neg (by decide), hm, hj, List.cons_append, List.cons_append, mark_doubleQuoted_backslash he hn,
      ← List.cons_append, mark_plainChars hplain, Option.map_map]
    rfl
  by_cases hq : c = '"'
  · subst hq
    exact mark_doubleQuoted_escaped rfl
  by_cases hb : c = '\\'
  · subst hb
    exact mark_doubleQuoted_escaped rfl
  have hm : jsonMarks c = [(c, .literal)] := by simp [jsonMarks, hq, hb, jsonChar_printable hq hb hc]
  rw [jsonChar_printable hq hb hc, hm]
  by_cases hx : expandsAt c text = true
  · rw [if_pos hx]
    simp only [expandsAt, Bool.or_eq_true, beq_iff_eq, Bool.and_eq_true] at hx
    cases text <;> simp [mark, hq, hx]
  · rw [if_neg hx]
    simp only [expandsAt, Bool.or_eq_true, beq_iff_eq, Bool.and_eq_true, not_or, not_and, Bool.not_eq_true] at hx
    exact mark_doubleQuoted_literal ⟨hq, hx.1, hb⟩ hx.2

/-- A shell runs or expands something in the name. -/
def expandsIn : List Char → Bool
  | [] => false
  | c :: cs => expandsAt c cs || expandsIn cs

theorem mark_json (cs rest : List Char) : mark .doubleQuoted (cs.flatMap jsonChar ++ '"' :: rest) =
    if expandsIn cs = true then none else (mark .word rest).map (cs.flatMap jsonMarks ++ ('"', .quote) :: ·) := by
  induction cs with
  | nil => exact mark_doubleQuoted_close rest
  | cons c cs ih =>
    rw [List.flatMap_cons, List.append_assoc, mark_jsonChar, ih, expandsAt_congr (startsExpansion_json cs rest)]
    by_cases hx : expandsAt c cs = true
    · simp [expandsIn, hx]
    · by_cases hxs : expandsIn cs = true
      · simp [expandsIn, hx, hxs]
      · simp [expandsIn, hx, hxs, Function.comp_def]

/-- What a shell reads of the JSON of one character. -/
def jsonRead (c : Char) : List Char := if c.toNat < 0x20 then jsonChar c else [c]

theorem kept_jsonMarks (cs : List Char) : kept (cs.flatMap jsonMarks) = cs.flatMap jsonRead := by
  induction cs with
  | nil => rfl
  | cons c cs ih =>
    rw [List.flatMap_cons, kept_append, ih, List.flatMap_cons]
    congr 1
    by_cases hq : c = '"'
    · subst hq; rfl
    by_cases hb : c = '\\'
    · subst hb; rfl
    have hm : jsonMarks c = (jsonChar c).map (·, Role.literal) := by simp [jsonMarks, hq, hb]
    rw [hm, kept_literals, jsonRead]
    by_cases hc : c.toNat < 0x20
    · rw [if_pos hc]
    · rw [if_neg hc, jsonChar_printable hq hb hc]

theorem jsonMarks_noBlank (cs : List Char) : ∀ mk ∈ cs.flatMap jsonMarks, mk.2 ≠ .blank := by
  intro mk hmk
  obtain ⟨c, -, hc⟩ := List.mem_flatMap.mp hmk
  unfold jsonMarks at hc
  split at hc
  · simp only [List.mem_cons, List.not_mem_nil, or_false] at hc
    obtain rfl | rfl := hc <;> exact fun h => by cases h
  · obtain ⟨d, -, rfl⟩ := List.mem_map.mp hc
    exact fun h => by cases h

theorem flatMap_jsonRead (cs : List Char) : cs.flatMap jsonRead = cs ↔ ∀ c ∈ cs, 0x20 ≤ c.toNat := by
  constructor
  · intro h c hc
    -- a control character reads as two characters or more, and no character as none
    have hlen : ∀ ds : List Char, ds.length ≤ (ds.flatMap jsonRead).length ∧
        (c ∈ ds → c.toNat < 0x20 → ds.length < (ds.flatMap jsonRead).length) := fun ds => by
      induction ds with
      | nil => simp
      | cons d ds ih =>
        have hd : 1 ≤ (jsonRead d).length ∧ (d.toNat < 0x20 → 2 ≤ (jsonRead d).length) := by
          by_cases hd : d.toNat < 0x20
          · obtain ⟨x, run, hj, -⟩ := jsonChar_control d hd
            simp [jsonRead, hd, hj]
          · simp [jsonRead, hd]
        simp only [List.flatMap_cons, List.length_append, List.length_cons, List.mem_cons]
        refine ⟨by omega, ?_⟩
        rintro (rfl | hm) hctl
        · have := hd.2 hctl; omega
        · have := ih.2 hm hctl; omega
    refine Nat.not_lt.mp fun hlt => ?_
    have := (hlen cs).2 hc hlt
    rw [h] at this
    exact Nat.lt_irrefl _ this
  · intro h
    induction cs with
    | nil => rfl
    | cons c cs ih =>
      have hc := h c List.mem_cons_self
      rw [List.flatMap_cons, ih (fun d hd => h d (List.mem_cons_of_mem _ hd)), jsonRead, if_neg (by omega)]
      rfl

theorem plainInAdd_iff (cs : List Char) : plainInAdd cs = true ↔ expandsIn cs = false ∧ cs.flatMap jsonRead = cs := by
  rw [flatMap_jsonRead]
  induction cs with
  | nil => simp [plainInAdd, expandsIn]
  | cons c cs ih =>
    simp only [plainInAdd, Bool.and_eq_true, ih, decide_eq_true_eq, Bool.not_eq_true', expandsIn, Bool.or_eq_false_iff,
      List.mem_cons, forall_eq_or_imp]
    constructor
    · rintro ⟨⟨h1, h2⟩, h3, h4⟩; exact ⟨⟨h2, h3⟩, h1, h4⟩
    · rintro ⟨⟨h2, h3⟩, h1, h4⟩; exact ⟨⟨h1, h2⟩, h3, h4⟩

/-! ## The words of a command -/

/-- A shell runs the command as this one simple command. -/
def Runs (command : String) (argv : List String) : Prop := words command.toList = some (argv.map String.toList)

theorem words_git (subcommand : String) (h : subcommand.toList.all isWordChar = true) (hne : subcommand ≠ "")
    (text : List Char) : words (("git " ++ subcommand ++ " -- ").toList ++ text) =
      (words text).map (["git", subcommand, "--"].map String.toList ++ ·) := by
  obtain ⟨c, run, hs⟩ : ∃ c run, subcommand.toList = c :: run := by
    cases hs : subcommand.toList with
    | nil => exact absurd (String.toList_eq_nil_iff.mp hs) hne
    | cons c run => exact ⟨c, run, rfl⟩
  have h1 := @words_word 'g' "it".toList rfl (subcommand.toList ++ ' ' :: ("--".toList ++ ' ' :: text))
  have h2 := words_word (by rw [← hs]; exact h) ("--".toList ++ ' ' :: text)
  have h3 := @words_word '-' ['-'] rfl text
  have happ : ("git " ++ subcommand ++ " -- ").toList ++ text =
      'g' :: "it".toList ++ ' ' :: (subcommand.toList ++ ' ' :: ("--".toList ++ ' ' :: text)) := by
    simp [String.toList_append]
  have h3 : words ("--".toList ++ ' ' :: text) = (words text).map ("--".toList :: ·) := h3
  rw [happ, h1, hs, h2, h3]
  simp only [Option.map_map, List.map_cons, List.map_nil, hs]
  rfl

/-- A word in double quotes, its marks between the quotes given. -/
theorem words_quoted {body : List Char} {ms : List Mark} (hms : ∀ mk ∈ ms, mk.2 ≠ .blank)
    (h : ∀ rest, mark .doubleQuoted (body ++ '"' :: rest) = (mark .word rest).map (ms ++ ('"', .quote) :: ·)) :
    words ('"' :: body ++ ['"']) = some [kept ms] ∧
      ∀ text, words ('"' :: body ++ '"' :: ' ' :: text) = (words text).map (kept ms :: ·) := by
  have hopen : ∀ rest, mark .between ('"' :: rest) = (mark .doubleQuoted rest).map (('"', .quote) :: ·) := fun rest => by
    cases rest <;> simp [mark, isBlank]
  have hblank : ∀ text, mark .word (' ' :: text) = (mark .between text).map ((' ', .blank) :: ·) := fun text => by
    cases text <;> simp [mark, isBlank]
  constructor
  · rw [words, List.cons_append, hopen, h []]
    simp [mark, fields, fields_append hms]
  · intro text
    rw [words, List.cons_append, hopen, h, hblank]
    simp [words, Function.comp_def, fields, fields_append hms]

/-- A name a shell expands ends the line's being words. -/
theorem words_expanded {body : List Char} (h : ∀ rest, mark .doubleQuoted (body ++ '"' :: rest) = none) (rest : List Char) :
    words ('"' :: body ++ '"' :: rest) = none := by
  have hopen : mark .between ('"' :: (body ++ '"' :: rest)) =
      (mark .doubleQuoted (body ++ '"' :: rest)).map (('"', .quote) :: ·) := by
    cases body <;> simp [mark, isBlank]
  rw [words, List.cons_append, hopen, h]
  rfl

theorem words_jsonStrings (f : String) (files : List String) :
    words (joinStrings " " ((f :: files).map jsonString)).toList =
      if (f :: files).any (fun g => expandsIn g.toList) = true then none
      else some ((f :: files).map fun g => g.toList.flatMap jsonRead) := by
  have hjoin : ∀ parts : List String, (joinStrings " " parts).toList = joinWith [' '] (parts.map String.toList) :=
    fun parts => by simp [joinStrings]
  simp only [hjoin]
  induction files generalizing f with
  | nil =>
    simp only [List.map_cons, List.map_nil, joinWith, jsonString, String.toList_ofList, List.any_cons, List.any_nil,
      Bool.or_false]
    by_cases hx : expandsIn f.toList = true
    · rw [if_pos hx]
      exact words_expanded (fun rest => by rw [mark_json, if_pos hx]) []
    · rw [if_neg hx, ← kept_jsonMarks]
      exact (words_quoted (jsonMarks_noBlank _) fun rest => by rw [mark_json, if_neg hx]).1
  | cons g files ih =>
    simp only [List.map_cons, joinWith, jsonString, String.toList_ofList, List.any_cons, List.append_assoc,
      List.cons_append, List.nil_append] at ih ⊢
    by_cases hx : expandsIn f.toList = true
    · simp only [hx, Bool.true_or, if_true]
      exact words_expanded (fun rest => by rw [mark_json, if_pos hx]) _
    · have hw := (words_quoted (jsonMarks_noBlank f.toList) fun rest => by rw [mark_json, if_neg hx]).2
      simp only [List.cons_append] at hw
      rw [hw, ih, kept_jsonMarks]
      simp only [Bool.not_eq_true] at hx
      simp only [hx, Bool.false_or]
      split <;> rfl

theorem words_addCommand (f : String) (files : List String) :
    words (addCommand (f :: files)).toList =
      if (f :: files).any (fun g => expandsIn g.toList) = true then none
      else some (["git", "add", "--"].map String.toList ++ (f :: files).map fun g => g.toList.flatMap jsonRead) := by
  have hwords : words (addCommand (f :: files)).toList =
      (words (joinStrings " " ((f :: files).map jsonString)).toList).map (["git", "add", "--"].map String.toList ++ ·) := by
    rw [← words_git "add" rfl (by decide)]
    simp [addCommand]
  rw [hwords, words_jsonStrings]
  split <;> rfl

/-- `git add` gets the names exactly when every one of them is plain in JSON. -/
theorem addCommand_runs_iff (f : String) (files : List String) :
    Runs (addCommand (f :: files)) ("git" :: "add" :: "--" :: f :: files) ↔
      ∀ g ∈ f :: files, plainInAdd g.toList = true := by
  rw [Runs, words_addCommand]
  by_cases hx : (f :: files).any (fun g => expandsIn g.toList) = true
  · rw [if_pos hx]
    obtain ⟨g, hg, hxg⟩ := List.any_eq_true.mp hx
    constructor
    · intro h; cases h
    · intro h
      have := (plainInAdd_iff g.toList).mp (h g hg)
      rw [hxg] at this
      cases this.1
  · rw [if_neg hx]
    have hx : ∀ g ∈ f :: files, expandsIn g.toList = false := by
      intro g hg
      cases hb : expandsIn g.toList
      · rfl
      · exact absurd (List.any_eq_true.mpr ⟨g, hg, hb⟩) hx
    have hmap : ((f :: files).map fun g => g.toList.flatMap jsonRead) = (f :: files).map String.toList ↔
        ∀ g ∈ f :: files, plainInAdd g.toList = true := by
      rw [List.map_inj_left]
      constructor
      · intro h g hg; exact (plainInAdd_iff _).mpr ⟨hx g hg, h g hg⟩
      · intro h g hg; exact ((plainInAdd_iff _).mp (h g hg)).2
    rw [← hmap]
    simp

/-! ## A name with its double quotes escaped -/

def escapedChars (cs : List Char) : List Char := cs.flatMap fun c => if c = '"' then ['\\', '"'] else [c]

def diffMarks (cs : List Char) : List Mark :=
  cs.flatMap fun c => if c = '"' then [('\\', .escape), (c, .escaped)] else [(c, .literal)]

@[simp] theorem escapedChars_quote (cs : List Char) : escapedChars ('"' :: cs) = '\\' :: '"' :: escapedChars cs := rfl

theorem escapedChars_cons {c : Char} (hc : c ≠ '"') (cs : List Char) : escapedChars (c :: cs) = c :: escapedChars cs := by
  simp [escapedChars, hc]

theorem kept_diffMarks (cs : List Char) : kept (diffMarks cs) = cs := by
  induction cs with
  | nil => rfl
  | cons c cs ih =>
    rw [diffMarks, List.flatMap_cons, kept_append]
    show kept _ ++ kept (diffMarks cs) = _
    rw [ih]
    by_cases hc : c = '"'
    · subst hc; rfl
    · rw [if_neg hc]; rfl

theorem diffMarks_noBlank (cs : List Char) : ∀ mk ∈ diffMarks cs, mk.2 ≠ .blank := by
  intro mk hmk
  obtain ⟨c, -, hc⟩ := List.mem_flatMap.mp hmk
  split at hc
  · simp only [List.mem_cons, List.not_mem_nil, or_false] at hc
    obtain rfl | rfl := hc <;> exact fun h => by cases h
  · simp only [List.mem_singleton] at hc
    subst hc
    exact fun h => by cases h

theorem startsExpansion_escaped (cs rest : List Char) :
    startsExpansion (escapedChars cs ++ '"' :: rest) = startsExpansion cs := by
  cases cs with
  | nil => rfl
  | cons c cs =>
    by_cases hc : c = '"'
    · subst hc; rfl
    · rw [escapedChars_cons hc]; rfl

theorem expandsAt_false {c : Char} {rest : List Char} (h : expandsAt c rest = false) :
    c ≠ backquote ∧ (c = '$' → startsExpansion rest = false) := by
  simpa [expandsAt] using h

/-- A plain name is marked as the name. -/
theorem mark_escaped {cs : List Char} (h : plainInDiff cs = true) (rest : List Char) :
    mark .doubleQuoted (escapedChars cs ++ '"' :: rest) =
      (mark .word rest).map (diffMarks cs ++ ('"', .quote) :: ·) := by
  induction cs with
  | nil => exact mark_doubleQuoted_close rest
  | cons c cs ih =>
    simp only [plainInDiff, Bool.and_eq_true, Bool.not_eq_true'] at h
    obtain ⟨⟨hx, hb⟩, hcs⟩ := h
    have ih := ih hcs
    by_cases hq : c = '"'
    · subst hq
      rw [escapedChars_quote, List.cons_append, List.cons_append, mark_doubleQuoted_escaped rfl, ih, Option.map_map]
      rfl
    have hm : diffMarks (c :: cs) = (c, .literal) :: diffMarks cs := by simp [diffMarks, hq]
    rw [escapedChars_cons hq, hm, List.cons_append]
    by_cases hs : c = '\\'
    · subst hs
      cases cs with
      | nil => simp [escapesAt] at hb
      | cons d ds =>
        simp only [escapesAt, beq_self_eq_true, Bool.true_and, Bool.or_eq_false_iff, beq_eq_false_iff_ne] at hb
        have hd : d ≠ '"' := by intro h; subst h; exact absurd hb.1 (by decide)
        rw [escapedChars_cons hd] at ih ⊢
        rw [List.cons_append, mark_doubleQuoted_backslash hb.1 hb.2, ← List.cons_append, ih, Option.map_map]
        rfl
    · obtain ⟨hbq, hdollar⟩ := expandsAt_false hx
      rw [mark_doubleQuoted_literal ⟨hq, hbq, hs⟩ (fun h => by rw [startsExpansion_escaped]; exact hdollar h), ih,
        Option.map_map]
      rfl

/-- Only double quotes are escaped, and no line is joined. -/
def OnlyQuotes (ms : List Mark) : Prop := ∀ mk ∈ ms, mk.2 ≠ .joined ∧ (mk.2 = .escaped → mk.1 = '"')

theorem OnlyQuotes.tail {mk : Mark} {ms : List Mark} (h : OnlyQuotes (mk :: ms)) : OnlyQuotes ms :=
  fun mk' hmk => h mk' (List.mem_cons_of_mem _ hmk)

theorem plainInDiff_of_mark {cs : List Char} {ms : List Mark} (h : mark .doubleQuoted (escapedChars cs ++ ['"']) = some ms)
    (hms : OnlyQuotes ms) : plainInDiff cs = true := by
  induction cs generalizing ms with
  | nil => rfl
  | cons c cs ih =>
    by_cases hq : c = '"'
    · subst hq
      rw [escapedChars_quote, List.cons_append, List.cons_append, mark_doubleQuoted_escaped rfl] at h
      obtain ⟨ms', hms', rfl⟩ := Option.map_eq_some_iff.mp h
      simpa [plainInDiff, expandsAt, backquote] using ih hms' hms.tail.tail
    rw [escapedChars_cons hq, List.cons_append] at h
    by_cases hs : c = '\\'
    · subst hs
      have hxs : expandsAt '\\' cs = false := by simp [expandsAt, backslash_ne_backquote]
      cases cs with
      | nil => simp [escapedChars, mark, backslash_ne_backquote, isEscapable] at h
      | cons d ds =>
        by_cases hd : d = '"'
        · subst hd
          rw [escapedChars_quote, List.cons_append, mark_doubleQuoted_escaped rfl] at h
          obtain ⟨ms', -, rfl⟩ := Option.map_eq_some_iff.mp h
          have := (hms ('\\', .escaped) (by simp)).2 rfl
          exact absurd this (by decide)
        rw [escapedChars_cons hd, List.cons_append] at h
        by_cases hn : d = '\n'
        · subst hn
          simp only [mark, hq, backslash_ne_backquote, if_false, if_true, false_or] at h
          obtain ⟨ms', -, rfl⟩ := Option.map_eq_some_iff.mp h
          exact absurd rfl (hms ('\n', .joined) (by simp)).1
        cases he : isEscapable d with
        | true =>
          rw [mark_doubleQuoted_escaped he] at h
          obtain ⟨ms', -, rfl⟩ := Option.map_eq_some_iff.mp h
          exact absurd ((hms (d, .escaped) (by simp)).2 rfl) hd
        | false =>
          rw [mark_doubleQuoted_backslash he hn, ← List.cons_append, ← escapedChars_cons hd] at h
          obtain ⟨ms', hms', rfl⟩ := Option.map_eq_some_iff.mp h
          have hd := ih hms' hms.tail
          rw [plainInDiff, hd, hxs]
          simp [escapesAt, he, hn]
    by_cases hx : expandsAt c cs = true
    · have hx' : c = backquote ∨ (c = '$' ∧ startsExpansion (escapedChars cs ++ ['"']) = true) := by
        rw [startsExpansion_escaped]
        simpa [expandsAt] using hx
      revert h hx'
      generalize escapedChars cs ++ ['"'] = text
      intro h hx'
      cases text <;> simp [mark, hq, hx'] at h
    · have hx := Bool.eq_false_iff.mpr hx
      obtain ⟨hbq, hdollar⟩ := expandsAt_false hx
      rw [mark_doubleQuoted_literal ⟨hq, hbq, hs⟩ (fun h => by rw [startsExpansion_escaped]; exact hdollar h)] at h
      obtain ⟨ms', hms', rfl⟩ := Option.map_eq_some_iff.mp h
      simpa [plainInDiff, hx, hs] using ih hms' hms.tail

theorem count_escapedChars (x : Char) (cs : List Char) :
    (escapedChars cs).count x = cs.count x + if x = '\\' then cs.count '"' else 0 := by
  induction cs with
  | nil => simp [escapedChars]
  | cons c cs ih =>
    by_cases hq : c = '"'
    · subst hq
      rw [escapedChars_quote]
      simp only [List.count_cons, ih]
      by_cases hx : x = '\\'
      · subst hx; simp; omega
      · simp [hx, Ne.symm hx]
    · rw [escapedChars_cons hq]
      simp only [List.count_cons, ih, beq_iff_eq, hq, if_false, Nat.add_zero]
      omega

/-- `git diff` gets the name exactly when it is plain with its double quotes escaped. -/
theorem diffCommand_runs_iff (f : String) : Runs (diffCommand f) ["git", "diff", "--", f] ↔ plainInDiff f.toList = true := by
  have hwords : words (diffCommand f).toList =
      (words ('"' :: escapedChars f.toList ++ ['"'])).map (["git", "diff", "--"].map String.toList ++ ·) := by
    rw [← words_git "diff" rfl (by decide)]
    simp [diffCommand, escapeDoubleQuotes, escapedChars]
  have hruns : Runs (diffCommand f) ["git", "diff", "--", f] ↔
      words ('"' :: escapedChars f.toList ++ ['"']) = some [f.toList] := by
    rw [Runs, hwords]
    simp
  rw [hruns]
  constructor
  · intro h
    obtain ⟨ms, hms, hfields⟩ := Option.map_eq_some_iff.mp h
    have hkept : kept ms = f.toList := by
      have := fields_flatten none ms
      rw [hfields] at this
      simpa using this.symm
    have hmarks := marks_of_mark hms
    have hquote := hmarks.count '\''
    have hslash := hmarks.count '\\'
    simp [hkept, count_escapedChars] at hquote hslash
    have honly := hmarks.only_quotes (by decide) hquote (by rw [hkept]; omega)
    have hopen : mark .between ('"' :: (escapedChars f.toList ++ ['"'])) =
        (mark .doubleQuoted (escapedChars f.toList ++ ['"'])).map (('"', .quote) :: ·) := by
      cases escapedChars f.toList <;> simp [mark, isBlank]
    rw [List.cons_append, hopen] at hms
    obtain ⟨ms', hms', rfl⟩ := Option.map_eq_some_iff.mp hms
    exact plainInDiff_of_mark hms' (fun mk hmk => honly mk (List.mem_cons_of_mem _ hmk))
  · intro h
    have := (words_quoted (diffMarks_noBlank f.toList) (mark_escaped h)).1
    rwa [kept_diffMarks] at this

end GitCommitsPush.Publication
