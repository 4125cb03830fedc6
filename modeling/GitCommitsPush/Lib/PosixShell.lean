/-
  GitCommitsPush.Lib.PosixShell — when a command line is one simple command of literal
  words.

  `mark` is token recognition: it gives every character its role, and answers `none`
  where the line is more than literal words (an operator, a comment, an expansion, an
  unclosed quote). `fields` is field formation and quote removal. Command position is
  not special: reserved words and assignments are not looked for.

  A `$` that starts no expansion is the character itself, as the shells have it.
  The rules: no character is lost (`Marks.count`), what is kept is the words
  (`fields_flatten`), and each dropped backslash pays for one escaped character
  (`Marks.escapes`).
-/

namespace GitCommitsPush.Lib.PosixShell

inductive Mode where
  /-- Outside any word. -/
  | between
  /-- In a word, unquoted. -/
  | word
  | doubleQuoted
  | singleQuoted
  deriving DecidableEq, Repr

inductive Role where
  | literal
  | escaped
  /-- A backslash that escapes the next character. -/
  | escape
  | quote
  | blank
  /-- The newline of a line continuation. -/
  | joined
  deriving DecidableEq, Repr

abbrev Mark := Char × Role

/-! ## Token recognition -/

def backquote : Char := Char.ofNat 0x60

theorem backslash_ne_backquote : '\\' ≠ backquote := by decide

/-- What may follow the `$` of a parameter, arithmetic or command expansion; `$[` is an
    arithmetic one where bash is the shell. -/
def startsExpansion : List Char → Bool
  | c :: _ => c.isAlphanum || "_\x7b([@*#?$!-".toList.contains c
  | [] => false

/-- Unquoted, these end or expand a word, or make a command of another kind. -/
def isSpecial (c : Char) : Bool := "|&;<>()`\n*?[".toList.contains c

/-- What a backslash escapes within double quotes. -/
def isEscapable (c : Char) : Bool := "$`\"\\".toList.contains c

def isBlank (c : Char) : Bool := c == ' ' || c == '\t'

def mark : Mode → List Char → Option (List Mark)
  | .between, [] | .word, [] => some []
  | .doubleQuoted, [] | .singleQuoted, [] => none
  | .singleQuoted, c :: text =>
    if c = '\'' then (mark .word text).map ((c, .quote) :: ·)
    else (mark .singleQuoted text).map ((c, .literal) :: ·)
  | .doubleQuoted, c :: text =>
    if c = '"' then (mark .word text).map ((c, .quote) :: ·)
    else if c = backquote ∨ (c = '$' ∧ startsExpansion text = true) then none
    else if c = '\\' then match text with
      | [] => none
      | d :: rest =>
        if d = '\n' then (mark .doubleQuoted rest).map ((c, .escape) :: (d, .joined) :: ·)
        else if isEscapable d = true then (mark .doubleQuoted rest).map ((c, .escape) :: (d, .escaped) :: ·)
        else (mark .doubleQuoted (d :: rest)).map ((c, .literal) :: ·)
    else (mark .doubleQuoted text).map ((c, .literal) :: ·)
  | m, c :: text =>
    if isBlank c = true then (mark .between text).map ((c, .blank) :: ·)
    else if c = '"' then (mark .doubleQuoted text).map ((c, .quote) :: ·)
    else if c = '\'' then (mark .singleQuoted text).map ((c, .quote) :: ·)
    else if c = '\\' then match text with
      | [] => none
      | d :: rest =>
        if d = '\n' then (mark m rest).map ((c, .escape) :: (d, .joined) :: ·)
        else (mark .word rest).map ((c, .escape) :: (d, .escaped) :: ·)
    else if isSpecial c = true ∨ (c = '$' ∧ startsExpansion text = true) ∨ (m = .between ∧ (c = '#' ∨ c = '~')) then none
    else (mark .word text).map ((c, .literal) :: ·)

/-! ## Fields and quote removal -/

def fields : Option (List Char) → List Mark → List (List Char)
  | current, [] => current.toList
  | current, (_, .blank) :: ms => current.toList ++ fields none ms
  | current, (c, .literal) :: ms | current, (c, .escaped) :: ms => fields (some (current.getD [] ++ [c])) ms
  | current, (_, .quote) :: ms => fields (some (current.getD [])) ms
  | current, (_, .escape) :: ms | current, (_, .joined) :: ms => fields current ms

/-- The words of a line that is one simple command of literal words. -/
def words (text : List Char) : Option (List (List Char)) := (mark .between text).map (fields none)

/-! ## What a line that was recognised looks like -/

/-- The steps of `mark`, one for each role. -/
inductive Marks : Mode → List Char → List Mark → Prop
  | done {m : Mode} : Marks m [] []
  | literal {m m' : Mode} {c : Char} {text : List Char} {ms : List Mark} : (m = .singleQuoted ∨ c ≠ '"') →
      (m' = .singleQuoted → m = .singleQuoted) → Marks m' text ms → Marks m (c :: text) ((c, .literal) :: ms)
  | quote {m m' : Mode} {c : Char} {text : List Char} {ms : List Mark} : (c = '"' ∨ c = '\'') →
      (m' = .singleQuoted → c = '\'') → Marks m' text ms → Marks m (c :: text) ((c, .quote) :: ms)
  | blank {m : Mode} {c : Char} {text : List Char} {ms : List Mark} : isBlank c = true →
      Marks .between text ms → Marks m (c :: text) ((c, .blank) :: ms)
  | escaped {m m' : Mode} {c : Char} {text : List Char} {ms : List Mark} : m' ≠ .singleQuoted →
      Marks m' text ms → Marks m ('\\' :: c :: text) (('\\', .escape) :: (c, .escaped) :: ms)
  | joined {m : Mode} {text : List Char} {ms : List Mark} : m ≠ .singleQuoted →
      Marks m text ms → Marks m ('\\' :: '\n' :: text) (('\\', .escape) :: ('\n', .joined) :: ms)

theorem marks_of_mark {m : Mode} {text : List Char} {ms : List Mark} (h : mark m text = some ms) : Marks m text ms := by
  fun_induction mark m text generalizing ms with
  | case1 | case2 => cases h; exact .done
  | case3 | case4 | case8 | case9 | case17 | case20 => cases h
  | case5 text ih | case7 text ih =>
    obtain ⟨ms', hms, rfl⟩ := Option.map_eq_some_iff.mp h
    exact .quote (by decide) (fun h => by cases h) (ih hms)
  | case6 c text hc ih =>
    obtain ⟨ms', hms, rfl⟩ := Option.map_eq_some_iff.mp h
    exact .literal (.inl rfl) id (ih hms)
  | case10 rest _ _ ih =>
    obtain ⟨ms', hms, rfl⟩ := Option.map_eq_some_iff.mp h
    exact .joined (fun h => by cases h) (ih hms)
  | case11 d rest _ _ _ _ ih =>
    obtain ⟨ms', hms, rfl⟩ := Option.map_eq_some_iff.mp h
    exact .escaped (fun h => by cases h) (ih hms)
  | case12 d rest _ _ _ _ ih =>
    obtain ⟨ms', hms, rfl⟩ := Option.map_eq_some_iff.mp h
    exact .literal (.inr (by decide)) id (ih hms)
  | case13 c text hc _ _ ih =>
    obtain ⟨ms', hms, rfl⟩ := Option.map_eq_some_iff.mp h
    exact .literal (.inr hc) id (ih hms)
  | case14 m c text _ _ hc ih =>
    obtain ⟨ms', hms, rfl⟩ := Option.map_eq_some_iff.mp h
    exact .blank hc (ih hms)
  | case15 m text _ _ _ ih =>
    obtain ⟨ms', hms, rfl⟩ := Option.map_eq_some_iff.mp h
    exact .quote (by decide) (fun h => by cases h) (ih hms)
  | case16 m text _ _ _ _ ih =>
    obtain ⟨ms', hms, rfl⟩ := Option.map_eq_some_iff.mp h
    exact .quote (by decide) (fun _ => rfl) (ih hms)
  | case18 m hs _ rest _ _ _ ih =>
    obtain ⟨ms', hms, rfl⟩ := Option.map_eq_some_iff.mp h
    exact .joined hs (ih hms)
  | case19 m _ _ d rest _ _ _ _ ih =>
    obtain ⟨ms', hms, rfl⟩ := Option.map_eq_some_iff.mp h
    exact .escaped (fun h => by cases h) (ih hms)
  | case21 m c text hs _ _ hq _ _ _ ih =>
    obtain ⟨ms', hms, rfl⟩ := Option.map_eq_some_iff.mp h
    exact .literal (.inr hq) (fun h => by cases h) (ih hms)

/-! ## What is kept and what is dropped -/

def Role.kept : Role → Bool
  | .literal | .escaped => true
  | _ => false

def kept (ms : List Mark) : List Char := (ms.filter (·.2.kept)).map Prod.fst

def dropped (ms : List Mark) : List Char := (ms.filter (!·.2.kept)).map Prod.fst

theorem fields_flatten (current : Option (List Char)) (ms : List Mark) :
    (fields current ms).flatten = current.getD [] ++ kept ms := by
  induction ms generalizing current with
  | nil => cases current <;> simp [fields, kept]
  | cons mk ms ih =>
    obtain ⟨c, r⟩ := mk
    cases r <;> simp [fields, ih, kept, Role.kept]
    cases current <;> simp

theorem kept_append (ms ms' : List Mark) : kept (ms ++ ms') = kept ms ++ kept ms' := by
  simp only [kept, List.filter_append, List.map_append]

/-- Marks without a blank extend the word they are in. -/
theorem fields_append {ms : List Mark} (h : ∀ mk ∈ ms, mk.2 ≠ .blank) (w : List Char) (ms' : List Mark) :
    fields (some w) (ms ++ ms') = fields (some (w ++ kept ms)) ms' := by
  induction ms generalizing w with
  | nil => simp [kept]
  | cons mk ms ih =>
    obtain ⟨c, r⟩ := mk
    have ih := ih (fun mk hmk => h mk (List.mem_cons_of_mem _ hmk))
    cases r with
    | blank => exact absurd rfl (h (c, .blank) List.mem_cons_self)
    | _ => simp [fields, ih, kept, Role.kept]

/-- No character is lost: each is kept or dropped. -/
theorem Marks.count {m : Mode} {text : List Char} {ms : List Mark} (h : Marks m text ms) (x : Char) :
    text.count x = (kept ms).count x + (dropped ms).count x := by
  induction h with
  | done => rfl
  | _ =>
    simp_all [kept, dropped, Role.kept, List.count_cons]
    omega

/-- A dropped backslash escapes one character. -/
theorem Marks.escapes {m : Mode} {text : List Char} {ms : List Mark} (h : Marks m text ms) :
    (dropped ms).count '\\' = ms.countP (·.2 = .escaped) + ms.countP (·.2 = .joined) := by
  induction h with
  | done => rfl
  | quote hc _ _ ih => obtain rfl | rfl := hc <;> simpa [dropped, Role.kept] using ih
  | blank hc _ ih =>
    obtain h | h := Bool.or_eq_true _ _ ▸ hc <;> rw [beq_iff_eq] at h <;> subst h <;> simpa [dropped, Role.kept] using ih
  | literal _ _ _ ih => simpa [dropped, Role.kept] using ih
  | escaped _ _ ih | joined _ _ ih => simp [dropped, Role.kept] at ih ⊢; omega

/-- Outside single quotes a double quote is kept only when it is escaped. -/
theorem Marks.escaped_quotes {m : Mode} {text : List Char} {ms : List Mark} (h : Marks m text ms)
    (hm : m ≠ .singleQuoted) (hs : (dropped ms).count '\'' = 0) :
    (kept ms).count '"' = ms.countP fun mk => mk.2 = .escaped ∧ mk.1 = '"' := by
  induction h with
  | done => rfl
  | quote hc hm' _ ih =>
    obtain rfl | rfl := hc
    · have := ih (fun h => absurd (hm' h) (by decide)) (by simpa [dropped, Role.kept] using hs)
      simpa [kept, Role.kept] using this
    · simp [dropped, Role.kept] at hs
  | literal hc hm' _ ih =>
    have := ih (fun h => hm (hm' h)) (by simpa [dropped, Role.kept] using hs)
    simpa [kept, Role.kept, List.count_cons, hc.resolve_left hm] using this
  | blank hc _ ih =>
    have := ih (by decide) (by
      simp only [dropped, Role.kept, List.count_eq_zero] at hs ⊢
      exact fun h => hs (by simp_all))
    simpa [kept, Role.kept] using this
  | escaped hm' _ ih =>
    have := ih hm' (by simpa [dropped, Role.kept] using hs)
    simpa [kept, Role.kept, List.count_cons, List.countP_cons] using this
  | joined hm' _ ih =>
    have := ih hm' (by simpa [dropped, Role.kept] using hs)
    simpa [kept, Role.kept] using this

/-- When only as many backslashes are dropped as double quotes are kept, they escape
    double quotes and nothing else. -/
theorem Marks.only_quotes {m : Mode} {text : List Char} {ms : List Mark} (h : Marks m text ms)
    (hm : m ≠ .singleQuoted) (hs : (dropped ms).count '\'' = 0)
    (hb : (dropped ms).count '\\' = (kept ms).count '"') :
    ∀ mk ∈ ms, mk.2 ≠ .joined ∧ (mk.2 = .escaped → mk.1 = '"') := by
  have hesc := h.escapes
  have hquot := h.escaped_quotes hm hs
  -- the escaped characters are the escaped quotes and the others, so there are no others
  have hsplit := List.countP_eq_countP_filter_add ms (fun mk => decide (mk.2 = .escaped)) (fun mk => decide (mk.1 = '"'))
  simp only [List.countP_filter, ← Bool.decide_and, ← decide_not] at hsplit
  have hj : ms.countP (·.2 = .joined) = 0 := by omega
  have ho : (ms.countP fun mk => mk.2 = .escaped ∧ ¬ mk.1 = '"') = 0 := by omega
  intro mk hmk
  have h1 := List.countP_eq_zero.mp hj mk hmk
  have h2 := List.countP_eq_zero.mp ho mk hmk
  simp only [decide_eq_true_eq, not_and, Classical.not_not] at h1 h2
  exact ⟨h1, h2⟩

/-! ## Running through unquoted words -/

/-- The character itself anywhere in an unquoted word. -/
def isWordChar (c : Char) : Bool := !isBlank c && !isSpecial c && !"\"'\\$#~".toList.contains c

theorem mark_wordChar {m : Mode} (hm : m = .between ∨ m = .word) {c : Char} (hc : isWordChar c = true) (text : List Char) :
    mark m (c :: text) = (mark .word text).map ((c, .literal) :: ·) := by
  simp only [isWordChar, Bool.and_eq_true, Bool.not_eq_true', List.contains_eq_mem, decide_eq_false_iff_not] at hc
  obtain ⟨⟨h1, h2⟩, h3⟩ := hc
  have h3 : c ≠ '"' ∧ c ≠ '\'' ∧ c ≠ '\\' ∧ c ≠ '$' ∧ c ≠ '#' ∧ c ≠ '~' := by simpa [not_or] using h3
  obtain ⟨h3, h4, h5, h6, h7, h8⟩ := h3
  obtain rfl | rfl := hm <;> cases text <;> simp [mark, h1, h2, h3, h4, h5, h6, h7, h8]

theorem mark_wordChars {run : List Char} (h : run.all isWordChar = true) (text : List Char) :
    mark .word (run ++ text) = (mark .word text).map (run.map (·, Role.literal) ++ ·) := by
  induction run with
  | nil => simp
  | cons c run ih =>
    obtain ⟨hc, hrun⟩ := Bool.and_eq_true _ _ ▸ (List.all_cons ▸ h : (isWordChar c && run.all isWordChar) = true)
    rw [List.cons_append, mark_wordChar (.inr rfl) hc, ih hrun, Option.map_map]
    rfl

theorem kept_literals (run : List Char) : kept (run.map (·, Role.literal)) = run := by
  induction run with
  | nil => rfl
  | cons c run ih => simpa [kept, Role.kept] using ih

/-- An unquoted word and the blank after it. -/
theorem words_word {c : Char} {run : List Char} (h : (c :: run).all isWordChar = true) (text : List Char) :
    words (c :: run ++ ' ' :: text) = (words text).map ((c :: run) :: ·) := by
  obtain ⟨hc, hrun⟩ := Bool.and_eq_true _ _ ▸ (List.all_cons ▸ h : (isWordChar c && run.all isWordChar) = true)
  have hblank : mark .word (' ' :: text) = (mark .between text).map ((' ', .blank) :: ·) := by
    cases text <;> simp [mark, isBlank]
  have hfields : ∀ ms, fields none ((c, Role.literal) :: (run.map (·, Role.literal) ++ (' ', .blank) :: ms)) =
      (c :: run) :: fields none ms := fun ms => by
    have hnb : ∀ mk ∈ run.map (·, Role.literal), mk.2 ≠ .blank := by
      intro mk hmk
      obtain ⟨d, -, rfl⟩ := List.mem_map.mp hmk
      exact fun h => by cases h
    simp [fields, fields_append hnb, kept_literals]
  rw [words, List.cons_append, mark_wordChar (.inl rfl) hc, mark_wordChars hrun, hblank]
  simp only [words, Option.map_map, Function.comp_def, hfields]

/-! ## Running through double quotes -/

theorem mark_doubleQuoted_close (text : List Char) :
    mark .doubleQuoted ('"' :: text) = (mark .word text).map (('"', .quote) :: ·) := by
  cases text <;> simp [mark]

theorem mark_doubleQuoted_literal {c : Char} {text : List Char} (hc : c ≠ '"' ∧ c ≠ backquote ∧ c ≠ '\\')
    (hx : c = '$' → startsExpansion text = false) :
    mark .doubleQuoted (c :: text) = (mark .doubleQuoted text).map ((c, .literal) :: ·) := by
  have hx' : ¬ (c = backquote ∨ (c = '$' ∧ startsExpansion text = true)) := by
    intro h
    rcases h with h | ⟨h, hs⟩
    · exact hc.2.1 h
    · rw [hx h] at hs; cases hs
  cases text <;> simp only [mark, if_neg hc.1, if_neg hx', if_neg hc.2.2]

theorem mark_doubleQuoted_escaped {d : Char} {text : List Char} (hd : isEscapable d = true) :
    mark .doubleQuoted ('\\' :: d :: text) =
      (mark .doubleQuoted text).map (('\\', .escape) :: (d, .escaped) :: ·) := by
  have hn : d ≠ '\n' := by rintro rfl; revert hd; decide
  simp [mark, hd, hn, backslash_ne_backquote]

theorem mark_doubleQuoted_backslash {d : Char} {text : List Char} (hd : isEscapable d = false) (hn : d ≠ '\n') :
    mark .doubleQuoted ('\\' :: d :: text) = (mark .doubleQuoted (d :: text)).map (('\\', .literal) :: ·) := by
  simp [mark.eq_7, hd, hn, backslash_ne_backquote]

end GitCommitsPush.Lib.PosixShell
