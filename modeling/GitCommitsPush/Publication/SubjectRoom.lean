/-
  GitCommitsPush.Publication.SubjectRoom — whether a header leaves room for a valid subject
  (`core/validators/commit-message-validator.ts`).

  The type, the scope and the breaking mark come first in a message, and a text of one's
  choice follows them. `valid_iff_candidate`: some text makes the message valid if and only
  if one of three does, `""`, `"x"` or `"): x"`. Which one it is depends on where the colon
  that ends the header stands in the form of the subject: after it (α), at it (β), or before
  it, in the middle of a scope (γ).
-/

import GitCommitsPush.Publication.SubjectForm

namespace GitCommitsPush.Publication

open GitCommitsPush.Lib.JsText
open GitCommitsPush.Lib.Regex

/-! ## A valid subject -/

structure GoodSubject (subject type description : String) : Prop where
  type : VALID_TYPES.contains type = true
  lower : description.toList.head?.any (fun c => inRange 'A' 'Z' c.toNat) = false
  stop : endsWith description "." = false
  fits : length16 subject ≤ MAX_COMMIT_SUBJECT_LENGTH
  past : test PAST_TENSE_PATTERN (units description) = false
  gerund : test GERUND_PATTERN (units description) = false
  vague : VAGUE_DESCRIPTIONS.contains (toLowerCase description) = false

theorem ite_singleton_eq_nil {α : Type} {b : Bool} {a : α} : (if b then [a] else []) = [] ↔ b = false := by
  cases b <;> simp

theorem subjectErrors_eq_nil {subject type description : String} :
    subjectErrors subject type description = [] ↔ GoodSubject subject type description := by
  unfold subjectErrors
  simp only [List.append_eq_nil_iff, ite_singleton_eq_nil]
  constructor
  · intro ⟨⟨⟨⟨⟨⟨htype, hlower⟩, hstop⟩, hfits⟩, hpast⟩, hgerund⟩, hvague⟩
    refine ⟨?_, hlower, hstop, ?_, hpast, hgerund, hvague⟩
    · by_cases h : VALID_TYPES.contains type = true
      · exact h
      · rw [if_neg h] at htype
        cases htype
    · by_cases h : length16 subject > MAX_COMMIT_SUBJECT_LENGTH
      · rw [if_pos h] at hfits
        cases hfits
      · omega
  · intro h
    have hfits := h.fits
    exact ⟨⟨⟨⟨⟨⟨if_pos h.type, h.lower⟩, h.stop⟩, if_neg (by omega)⟩, h.past⟩, h.gerund⟩, h.vague⟩

/-- The subject of a message, as the check reads it. -/
def messageSubject (message : String) : String := trimString (firstLine (trimString message))

theorem validateCommitMessage_eq_nil {message : String} :
    validateCommitMessage message = [] ↔ trimString message ≠ "" ∧ ∃ type description,
      parseSubject (messageSubject message) = some (type, description) ∧
        GoodSubject (messageSubject message) type description := by
  unfold validateCommitMessage messageSubject
  dsimp only
  by_cases hempty : trimString message = ""
  · rw [if_pos hempty]
    simp [hempty]
  · rw [if_neg hempty]
    cases hparse : parseSubject (trimString (firstLine (trimString message))) with
    | none => simp
    | some parsed =>
      obtain ⟨type, description⟩ := parsed
      simp [hempty, subjectErrors_eq_nil]

/-! ## The subject after a header -/

/-- What the trimmed message begins with. -/
def headStart (header : List Char) : List Char := trimStart header

/-- What is left of the text after the header's colon in the subject. -/
def subjectTail (text : List Char) : List Char := trimEnd ((trimEnd (' ' :: text)).takeWhile (· != '\n'))

/-- A header, a colon, a blank and a text. -/
def headed (header text : List Char) : String := String.ofList (header ++ ':' :: ' ' :: text)

theorem firstLine_ofList (s : List Char) : firstLine (String.ofList s) = String.ofList (s.takeWhile (· != '\n')) := by
  have h := splitOn_head '\n' s
  unfold firstLine splitString
  rw [String.toList_ofList]
  cases hparts : splitOn '\n' s with
  | nil => exact absurd hparts (splitOn_ne_nil _ _)
  | cons p ps =>
    rw [hparts] at h
    cases h
    rfl

theorem trimString_headed (header text : List Char) :
    trimString (headed header text) = String.ofList (headStart header ++ ':' :: trimEnd (' ' :: text)) := by
  unfold trimString headed headStart trim
  rw [String.toList_ofList, trimStart_stop (by decide), trimEnd_stop (by decide)]

theorem messageSubject_headed (header text : List Char) : messageSubject (headed header text) =
    String.ofList (if '\n' ∈ headStart header then trim ((headStart header).takeWhile (· != '\n'))
      else headStart header ++ ':' :: subjectTail text) := by
  unfold messageSubject
  rw [trimString_headed, firstLine_ofList]
  split
  · rename_i hline
    -- the first line ends inside the header
    have hshort : ¬((headStart header).takeWhile (· != '\n')).length = (headStart header).length := by
      intro hlength
      have hsame := (List.takeWhile_prefix (· != '\n') (l := headStart header)).eq_of_length hlength
      have hall := List.all_takeWhile (p := (· != '\n')) (l := headStart header)
      rw [hsame] at hall
      exact absurd (List.all_eq_true.mp hall '\n' hline) (by decide)
    rw [List.takeWhile_append, if_neg hshort]
    unfold trimString
    rw [String.toList_ofList]
  · rename_i hline
    have hall : ∀ c ∈ headStart header, (c != '\n') = true := by
      intro c hc
      have : c ≠ '\n' := fun h => hline (h ▸ hc)
      simpa using this
    rw [List.takeWhile_append_of_pos hall, List.takeWhile_cons, if_pos (by decide)]
    unfold trimString trim
    rw [String.toList_ofList, trimStart_stop (by decide), trimEnd_stop (by decide)]
    unfold headStart
    rw [trimStart_trimStart]
    rfl

theorem subjectTail_prefix (text : List Char) : subjectTail text <+: ' ' :: text :=
  List.IsPrefix.trans ((trimEnd_isPrefix _).trans <| List.takeWhile_prefix _) (trimEnd_isPrefix _)

theorem trimString_headed_ne_empty (header text : List Char) : trimString (headed header text) ≠ "" := by
  rw [trimString_headed]
  intro h
  have hlist := congrArg String.toList h
  rw [String.toList_ofList] at hlist
  simp at hlist

/-! ## Word patterns -/

theorem startsWithWord_atStart (wordList : List String) (t : Thread) (h : t.1.before ≠ []) :
    threads (startsWithWord wordList) t = [] := by
  rw [List.eq_nil_iff_forall_not_mem]
  intro t' ht'
  obtain ⟨u, hu, _⟩ := mem_threads_seq.mp (show t' ∈ threads (.seq .atStart
    (.seq (altAll (wordList.map litI)) (.wordBoundary isWord))) t from ht')
  exact h (mem_threads_atStart.mp hu).1

/-- A word of the list, whole, in either case. -/
def BeginsWith (wordList : List String) (input : List Nat) : Prop :=
  ∃ word ∈ wordList, ∃ run rest, input = run ++ rest ∧
    List.Forall₂ (fun d c => lowerAscii c = d) (word.toList.map Char.toNat) run ∧
    run.reverse.head?.any isWord ≠ rest.head?.any isWord

theorem test_startsWithWord {wordList : List String} (hne : wordList ≠ []) {input : List Nat} :
    test (startsWithWord wordList) input = true ↔ BeginsWith wordList input := by
  have hlit : ∀ (word : String) (t t' : Thread), t' ∈ threads (litI word) t ↔
      ∃ run, List.Forall₂ (fun d c => lowerAscii c = d) (word.toList.map Char.toNat) run ∧ Consumes run t.1 t'.1 ∧
        t'.2 = t.2 := by
    intro word t t'
    have heq : litI word = seqAll ((word.toList.map fun d => fun c => lowerAscii c == d.toNat).map .one) := by
      unfold litI
      rw [List.map_map]
      rfl
    rw [heq, mem_threads_text]
    simp only [List.forall₂_map_left_iff, beq_iff_eq]
  rw [test_eq_true_iff (startsWithWord_atStart wordList)]
  show (∃ t, t ∈ threads (.seq .atStart (.seq (altAll (wordList.map litI)) (.wordBoundary isWord))) (⟨[], input⟩, [])) ↔ _
  constructor
  · intro ⟨t, ht⟩
    obtain ⟨t0, h0, ht⟩ := mem_threads_seq.mp ht
    obtain ⟨_, rfl⟩ := mem_threads_atStart.mp h0
    obtain ⟨t1, h1, ht⟩ := mem_threads_seq.mp ht
    obtain ⟨hboundary, rfl⟩ := mem_threads_wordBoundary.mp ht
    obtain ⟨r, hr, h1⟩ := (mem_threads_altAll (by simpa using hne)).mp h1
    obtain ⟨word, hword, rfl⟩ := List.mem_map.mp hr
    obtain ⟨run, hrun, hconsumes, _⟩ := (hlit word _ _).mp h1
    have hbefore : t.1.before = run.reverse := by simpa using hconsumes.before
    rw [hbefore] at hboundary
    exact ⟨word, hword, run, t.1.after, hconsumes.after, hrun, hboundary⟩
  · intro ⟨word, hword, run, rest, hinput, hrun, hboundary⟩
    have hconsumes : Consumes run ⟨[], input⟩ ⟨run.reverse ++ [], rest⟩ := ⟨hinput, rfl⟩
    refine ⟨(⟨run.reverse ++ [], rest⟩, []), mem_threads_seq.mpr ⟨_, mem_threads_atStart.mpr ⟨rfl, rfl⟩,
      mem_threads_seq.mpr ⟨(⟨run.reverse ++ [], rest⟩, []), (mem_threads_altAll (by simpa using hne)).mpr
        ⟨litI word, List.mem_map_of_mem hword, (hlit word _ _).mpr ⟨run, hrun, hconsumes, rfl⟩⟩,
        mem_threads_wordBoundary.mpr ⟨?_, rfl⟩⟩⟩⟩
    rw [List.append_nil]
    exact hboundary

/-- A colon ends a word as well as what follows it does. -/
theorem beginsWith_colon {wordList : List String} (hletters : ∀ word ∈ wordList, ∀ d ∈ word.toList, d.toNat ≠ 58)
    {start rest : List Nat} (h : BeginsWith wordList (start ++ [58])) : BeginsWith wordList (start ++ 58 :: rest) := by
  obtain ⟨word, hword, run, tail, hinput, hrun, hboundary⟩ := h
  have hcolon : 58 ∉ run := by
    intro hmem
    obtain ⟨i, hi, hget⟩ := List.mem_iff_getElem.mp hmem
    have hlength := hrun.length_eq
    have hsame := (List.forall₂_iff_get.mp hrun).2 i (by omega) hi
    simp only [List.get_eq_getElem, hget, List.getElem_map] at hsame
    have hword' : i < word.toList.length := by
      rw [List.length_map] at hlength
      omega
    exact hletters word hword _ (List.getElem_mem hword') (hsame.symm.trans (by decide))
  rcases List.append_eq_append_iff.mp hinput with ⟨more, hrunEq, htail⟩ | ⟨more, hstart, htail⟩
  · cases more with
    | nil =>
      rw [List.append_nil] at hrunEq
      rw [List.nil_append] at htail
      refine ⟨word, hword, run, 58 :: rest, by rw [hrunEq], hrun, ?_⟩
      rw [← htail] at hboundary
      exact hboundary
    | cons c more =>
      have hc : 58 = c := (List.cons.inj htail).1
      exact absurd (by rw [hrunEq, hc]; simp) hcolon
  · refine ⟨word, hword, run, more ++ 58 :: rest, by rw [hstart, List.append_assoc], hrun, ?_⟩
    rw [htail] at hboundary
    cases more with
    | nil => exact hboundary
    | cons c more => exact hboundary

/-! ## The candidates -/

def roomCandidates : List (List Char) := ["".toList, "x".toList, "): x".toList]

def subjectUnits (header text : List Char) : List Nat := (headStart header ++ ':' :: subjectTail text).flatMap codeUnits

theorem units_ofList (s : List Char) : units (String.ofList s) = s.flatMap codeUnits := by
  unfold units
  rw [String.toList_ofList]

theorem subjectUnits_eq (header text : List Char) : subjectUnits header text =
    (headStart header).flatMap codeUnits ++ 58 :: (subjectTail text).flatMap codeUnits := by
  unfold subjectUnits
  rw [List.flatMap_append, List.flatMap_cons]
  rfl

section OneLine

variable {header : List Char} (hline : '\n' ∉ headStart header)

include hline

theorem messageSubject_oneLine (text : List Char) :
    messageSubject (headed header text) = String.ofList (headStart header ++ ':' :: subjectTail text) := by
  rw [messageSubject_headed, if_neg hline]

theorem valid_of_form {text : List Char} {type middle description : List Nat} {space : Nat}
    (hform : SubjectForm (subjectUnits header text) type middle space description)
    (hgood : GoodSubject (String.ofList (headStart header ++ ':' :: subjectTail text)) (stringOfUnits type)
      (stringOfUnits description)) : validateCommitMessage (headed header text) = [] := by
  have hform : SubjectForm (units (String.ofList (headStart header ++ ':' :: subjectTail text))) type middle space
      description := by
    rw [units_ofList]
    exact hform
  rw [validateCommitMessage_eq_nil, messageSubject_oneLine hline]
  exact ⟨trimString_headed_ne_empty header text, _, _, parseSubject_eq hform, hgood⟩

theorem form_of_valid {text : List Char} (h : validateCommitMessage (headed header text) = []) :
    ∃ type middle space description, SubjectForm (subjectUnits header text) type middle space description ∧
      GoodSubject (String.ofList (headStart header ++ ':' :: subjectTail text)) (stringOfUnits type)
        (stringOfUnits description) := by
  rw [validateCommitMessage_eq_nil, messageSubject_oneLine hline] at h
  obtain ⟨_, type, description, hparse, hgood⟩ := h
  obtain ⟨typeUnits, middle, space, descriptionUnits, hform, rfl, rfl⟩ := form_of_parseSubject hparse
  rw [units_ofList] at hform
  exact ⟨typeUnits, middle, space, descriptionUnits, hform, hgood⟩

omit hline in
theorem fits_iff {text : List Char} : length16 (String.ofList (headStart header ++ ':' :: subjectTail text)) ≤
    MAX_COMMIT_SUBJECT_LENGTH ↔ (subjectUnits header text).length ≤ MAX_COMMIT_SUBJECT_LENGTH := by
  unfold length16 subjectUnits
  rw [String.toList_ofList]

omit hline in
/-- The description `x` has nothing against it. -/
theorem goodSubject_x {text : List Char} {type : String} (htype : VALID_TYPES.contains type = true)
    (hfits : (subjectUnits header text).length ≤ MAX_COMMIT_SUBJECT_LENGTH) :
    GoodSubject (String.ofList (headStart header ++ ':' :: subjectTail text)) type (stringOfUnits [120]) where
  type := htype
  lower := by decide +kernel
  stop := by decide +kernel
  fits := fits_iff.mpr hfits
  past := by decide +kernel
  gerund := by decide +kernel
  vague := by decide +kernel

/-- (β) The header's colon is the colon of the form: `x` will do. -/
theorem candidate_at {type middle : List Nat} (htype : type ≠ []) (hword : ∀ c ∈ type, isWord c = true)
    (hmiddle : Middle middle) (hheader : (headStart header).flatMap codeUnits = type ++ middle)
    (hvalid : VALID_TYPES.contains (stringOfUnits type) = true)
    (hfits : (type ++ middle).length + 3 ≤ MAX_COMMIT_SUBJECT_LENGTH) :
    validateCommitMessage (headed header "x".toList) = [] := by
  have hunits : subjectUnits header "x".toList = (type ++ middle) ++ 58 :: 32 :: [120] := by
    rw [subjectUnits_eq, hheader]
    rfl
  have hform : SubjectForm (subjectUnits header "x".toList) type middle 32 [120] :=
    ⟨by rw [hunits, List.append_assoc], htype, hword, hmiddle, by decide, by decide, by decide⟩
  refine valid_of_form hline hform (goodSubject_x hvalid ?_)
  rw [hunits, List.length_append]
  exact hfits

/-- (γ) The header's colon is in a scope: the text closes it. -/
theorem candidate_before {type name : List Nat} (htype : type ≠ []) (hword : ∀ c ∈ type, isWord c = true)
    (hname : ∀ c ∈ name, (c != 41) = true) (hheader : (headStart header).flatMap codeUnits = type ++ 40 :: name)
    (hvalid : VALID_TYPES.contains (stringOfUnits type) = true)
    (hfits : (type ++ 40 :: name).length + 6 ≤ MAX_COMMIT_SUBJECT_LENGTH) :
    validateCommitMessage (headed header "): x".toList) = [] := by
  have hunits : subjectUnits header "): x".toList = type ++ 40 :: name ++ [58, 32, 41, 58, 32, 120] := by
    rw [subjectUnits_eq, hheader]
    rfl
  have hform : SubjectForm (subjectUnits header "): x".toList) type (40 :: ((name ++ [58, 32]) ++ [41])) 32 [120] := by
    refine ⟨by rw [hunits]; simp, htype, hword, ?_, by decide, by decide, by decide⟩
    refine ⟨40 :: ((name ++ [58, 32]) ++ [41]), [], [], by simp, .inr ⟨name ++ [58, 32], by simp, ?_, rfl⟩, .inl rfl,
      fun c hc => (by cases hc)⟩
    intro c hc
    rcases List.mem_append.mp hc with hc | hc
    · exact hname c hc
    · rcases List.mem_cons.mp hc with rfl | hc
      · decide
      · cases List.mem_singleton.mp hc
        decide
  refine valid_of_form hline hform (goodSubject_x hvalid ?_)
  rw [hunits, List.length_append]
  exact hfits

omit hline in
theorem stringOfUnits_codeUnits (s : List Char) : stringOfUnits (s.flatMap codeUnits) = String.ofList s := by
  unfold stringOfUnits
  rw [ofUnits_codeUnits]

omit hline in
/-- No vague description has a colon. -/
theorem vague_colon {description : String} (h : ':' ∈ description.toList) :
    VAGUE_DESCRIPTIONS.contains (toLowerCase description) = false := by
  have hcolon : ':' ∈ (toLowerCase description).toList := by
    unfold toLowerCase lowerChars
    rw [String.toList_ofList, List.mem_flatMap]
    exact ⟨':', h, by decide⟩
  cases hvague : VAGUE_DESCRIPTIONS.contains (toLowerCase description) with
  | false => rfl
  | true =>
    have hnone : ∀ v ∈ VAGUE_DESCRIPTIONS, ':' ∉ v.toList := by decide
    exact absurd hcolon (hnone _ (List.contains_iff_mem.mp hvague))

/-- (α) The colon of the form is before the header's: no text is needed. -/
theorem candidate_after {text : List Char} {type middle more : List Nat} {space : Nat} (htype : type ≠ [])
    (hword : ∀ c ∈ type, isWord c = true) (hmiddle : Middle middle) (hspace : isSpaceCode space = true)
    (hheader : (headStart header).flatMap codeUnits = (type ++ middle) ++ 58 :: space :: more)
    (hdescription : ∀ c ∈ more, (!isLineTerminator c) = true)
    (hgood : GoodSubject (String.ofList (headStart header ++ ':' :: subjectTail text)) (stringOfUnits type)
      (stringOfUnits (more ++ 58 :: (subjectTail text).flatMap codeUnits))) :
    validateCommitMessage (headed header "".toList) = [] := by
  have hbmp : space < 0xD800 ∨ 0xDFFF < space := by
    simp only [isSpaceCode, Bool.or_eq_true, Bool.and_eq_true, decide_eq_true_eq, beq_iff_eq] at hspace
    omega
  have hsplit : (headStart header).flatMap codeUnits = ((type ++ middle) ++ [58]) ++ space :: more := by
    rw [hheader]
    simp
  obtain ⟨_, _, rest, _, _, _, hrest⟩ := codeUnits_split hsplit hbmp
  have hold : stringOfUnits (more ++ 58 :: (subjectTail text).flatMap codeUnits) =
      String.ofList (rest ++ ':' :: subjectTail text) := by
    rw [← stringOfUnits_codeUnits, List.flatMap_append, List.flatMap_cons, hrest]
    rfl
  have hnew : stringOfUnits (more ++ [58]) = String.ofList (rest ++ [':']) := by
    rw [← stringOfUnits_codeUnits, List.flatMap_append, hrest]
    rfl
  have hunits : subjectUnits header "".toList = type ++ (middle ++ 58 :: space :: (more ++ [58])) := by
    rw [subjectUnits_eq, hheader]
    show (type ++ middle) ++ 58 :: space :: more ++ [58] = _
    simp
  have holdUnits : units (String.ofList (rest ++ ':' :: subjectTail text)) =
      more ++ 58 :: (subjectTail text).flatMap codeUnits := by
    rw [units_ofList, List.flatMap_append, List.flatMap_cons, hrest]
    rfl
  have hnewUnits : units (String.ofList (rest ++ [':'])) = more ++ [58] := by
    rw [units_ofList, List.flatMap_append, hrest]
    rfl
  rw [hold] at hgood
  -- what no word pattern finds before more text, none finds before the end
  have hwords : ∀ wordList : List String, wordList ≠ [] → (wordList.all fun word => word.toList.all (· != ':')) = true →
      test (startsWithWord wordList) (units (String.ofList (rest ++ ':' :: subjectTail text))) = false →
      test (startsWithWord wordList) (units (String.ofList (rest ++ [':']))) = false := by
    intro wordList hne hcolons hfalse
    have hletters : ∀ word ∈ wordList, ∀ d ∈ word.toList, d.toNat ≠ 58 := fun word hword d hd hcolon =>
      bne_iff_ne.mp (List.all_eq_true.mp (List.all_eq_true.mp hcolons word hword) d hd) (Char.toNat_inj.mp hcolon)
    cases htest : test (startsWithWord wordList) (units (String.ofList (rest ++ [':']))) with
    | false => rfl
    | true =>
      rw [hnewUnits, test_startsWithWord hne] at htest
      have hbegins : test (startsWithWord wordList) (more ++ 58 :: (subjectTail text).flatMap codeUnits) = true :=
        (test_startsWithWord hne).mpr (beginsWith_colon hletters htest)
      rw [holdUnits, hbegins] at hfalse
      cases hfalse
  have hform : SubjectForm (subjectUnits header "".toList) type middle space (more ++ [58]) := by
    refine ⟨hunits, htype, hword, hmiddle, hspace, by simp, fun c hc => ?_⟩
    rcases List.mem_append.mp hc with hc | hc
    · exact hdescription c hc
    · cases List.mem_singleton.mp hc
      decide
  refine valid_of_form hline hform ?_
  rw [hnew]
  refine ⟨hgood.type, ?_, ?_, ?_, hwords _ (by simp) (by decide +kernel) hgood.past,
    hwords _ (by simp) (by decide +kernel) hgood.gerund, vague_colon (by simp)⟩
  · have hlower := hgood.lower
    rw [String.toList_ofList] at hlower ⊢
    cases rest with
    | nil => decide
    | cons c rest => exact hlower
  · unfold endsWith
    rw [String.toList_ofList]
    simp [List.isSuffixOf, List.isPrefixOf]
  · rw [fits_iff]
    have hfits := fits_iff.mp hgood.fits
    rw [subjectUnits_eq, hheader] at hfits
    rw [hunits]
    simp only [List.length_append, List.length_cons, List.length_nil] at hfits ⊢
    omega

end OneLine

/-- A colon between the type and the colon of the form is in a scope. -/
theorem Middle.colon {middle start more : List Nat} (h : Middle middle) (heq : middle = start ++ 58 :: more) :
    ∃ name before rest, start = 40 :: name ∧ (∀ c ∈ name, (c != 41) = true) ∧ more = before ++ 41 :: rest := by
  obtain ⟨scope, mark, spaces, hmiddle, hscope, hmark, hspaces⟩ := h
  have hend : (58 : Nat) ∉ mark ++ spaces := by
    intro hmem
    rcases List.mem_append.mp hmem with hmem | hmem
    · rcases hmark with rfl | rfl
      · cases hmem
      · exact absurd (List.mem_singleton.mp hmem) (by decide)
    · exact absurd (hspaces 58 hmem) (by decide)
  rw [heq] at hmiddle
  rcases hscope with rfl | ⟨name, _, hname, rfl⟩
  · rw [List.nil_append] at hmiddle
    exact absurd (by rw [← hmiddle]; simp) hend
  · cases start with
    | nil => cases hmiddle
    | cons d start =>
      obtain ⟨hd, hinside⟩ := List.cons.inj hmiddle
      have hinside : name ++ 41 :: (mark ++ spaces) = start ++ 58 :: more := by simpa using hinside.symm
      rcases List.append_eq_append_iff.mp hinside with ⟨before, _, hafter⟩ | ⟨before, hbefore, hafter⟩
      · exfalso
        cases before with
        | nil => cases hafter
        | cons e before =>
          have hrest := (List.cons.inj hafter).2
          exact hend (by rw [hrest]; simp)
      · refine ⟨start, ?_⟩
        cases before with
        | nil => cases hafter
        | cons e before =>
          refine ⟨before, mark ++ spaces, by rw [hd], fun c hc => hname c ?_, (List.cons.inj hafter).2⟩
          rw [hbefore]
          exact List.mem_append_left _ hc

/-- What is left of the text begins with the blank. -/
theorem subjectTail_head {text : List Char} {u : Nat} {rest : List Nat}
    (h : (subjectTail text).flatMap codeUnits = u :: rest) : u = 32 := by
  obtain ⟨suffix, hsuffix⟩ := subjectTail_prefix text
  cases htext : subjectTail text with
  | nil =>
    rw [htext] at h
    cases h
  | cons c tail =>
    rw [htext] at h hsuffix
    have hc : c = ' ' := (List.cons.inj hsuffix).1
    rw [hc, List.flatMap_cons] at h
    exact (List.cons.inj h).1.symm

/-- The header's colon stands after, at or before the colon of the form. -/
theorem candidate_of_valid {header text : List Char} (h : validateCommitMessage (headed header text) = []) :
    ∃ candidate ∈ roomCandidates, validateCommitMessage (headed header candidate) = [] := by
  have hfirst : "".toList ∈ roomCandidates := by decide
  have hsecond : "x".toList ∈ roomCandidates := by decide
  have hthird : "): x".toList ∈ roomCandidates := by decide
  by_cases hline : '\n' ∈ headStart header
  · -- the subject ends inside the header, whatever follows
    refine ⟨_, hfirst, ?_⟩
    rw [validateCommitMessage_eq_nil, messageSubject_headed, if_pos hline] at h ⊢
    exact ⟨trimString_headed_ne_empty header _, h.2⟩
  · obtain ⟨type, middle, space, description, hform, hgood⟩ := form_of_valid hline h
    have hfits := fits_iff.mp hgood.fits
    have hunits := hform.eq
    rw [subjectUnits_eq] at hunits hfits
    have heq : (type ++ middle) ++ 58 :: space :: description =
        (headStart header).flatMap codeUnits ++ 58 :: (subjectTail text).flatMap codeUnits := by
      rw [hunits, List.append_assoc]
    have hlength := congrArg List.length heq
    simp only [List.length_append, List.length_cons] at hlength hfits
    have hone : 0 < description.length := List.length_pos_of_ne_nil hform.description_ne
    have hat : (headStart header).flatMap codeUnits = type ++ middle →
        ∃ candidate ∈ roomCandidates, validateCommitMessage (headed header candidate) = [] := by
      intro hheader
      refine ⟨_, hsecond, candidate_at hline hform.type_ne hform.type_word hform.middle hheader hgood.type ?_⟩
      have hsame := congrArg List.length hheader
      simp only [List.length_append] at hsame ⊢
      omega
    rcases List.append_eq_append_iff.mp heq with ⟨more, hheader, htail⟩ | ⟨more, hheader, htail⟩
    · cases more with
      | nil => exact hat (by rw [hheader, List.append_nil])
      | cons c more =>
        obtain ⟨hc, hafter⟩ := List.cons.inj htail
        cases more with
        | nil =>
          -- the header's colon would be the white space of the form
          have hspace : space = 58 := (List.cons.inj hafter).1
          exact absurd hform.space (by rw [hspace]; decide)
        | cons d more =>
          obtain ⟨hd, hdescription⟩ := List.cons.inj hafter
          subst hc hd
          refine ⟨_, hfirst, candidate_after hline hform.type_ne hform.type_word hform.middle hform.space hheader
            (fun c hc => hform.description_line c ?_) (hdescription ▸ hgood)⟩
          rw [hdescription]
          exact List.mem_append_left _ hc
    · cases more with
      | nil => exact hat (by rw [hheader, List.append_nil])
      | cons c more =>
        obtain ⟨hc, hafter⟩ := List.cons.inj htail
        have hafter : (subjectTail text).flatMap codeUnits = more ++ 58 :: space :: description := hafter
        subst hc
        rcases List.append_eq_append_iff.mp hheader with ⟨start, hstart, hmiddle⟩ | ⟨start, hstart, hmiddle⟩
        · obtain ⟨name, before, rest, rfl, hname, rfl⟩ := hform.middle.colon hmiddle
          refine ⟨_, hthird, candidate_before hline hform.type_ne hform.type_word hname hstart hgood.type ?_⟩
          -- the text has a blank, `)`, `:`, white space and a symbol at least
          have hblank : 0 < before.length := by
            cases before with
            | nil => exact absurd (subjectTail_head hafter) (by decide)
            | cons u before => simp
          have hsame := congrArg List.length hstart
          have htailLength := congrArg List.length hafter
          simp only [List.length_append, List.length_cons] at hsame htailLength ⊢
          omega
        · cases start with
          | nil =>
            have hat : middle = [] ++ 58 :: more := hmiddle.symm
            obtain ⟨_, _, _, hopen, _⟩ := hform.middle.colon hat
            cases hopen
          | cons c start =>
            have hc : 58 = c := (List.cons.inj hmiddle).1
            exact absurd (hform.type_word 58 (by rw [hstart, hc]; simp)) (by decide)

theorem valid_iff_candidate (header : List Char) : (∃ text, validateCommitMessage (headed header text) = []) ↔
    ∃ candidate ∈ roomCandidates, validateCommitMessage (headed header candidate) = [] :=
  ⟨fun ⟨_, h⟩ => candidate_of_valid h, fun ⟨candidate, _, h⟩ => ⟨candidate, h⟩⟩

end GitCommitsPush.Publication
