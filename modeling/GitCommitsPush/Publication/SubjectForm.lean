/-
  GitCommitsPush.Publication.SubjectForm — what `COMMIT_MSG_REGEX` and the word patterns of
  `core/validators/commit-message-validator.ts` match.

  A subject has the form in at most one way (`SubjectForm.unique`), so the groups the match
  captures are the type and the description of that form (`parseSubject_eq`).
-/

import GitCommitsPush.Lib.RegexThreads
import GitCommitsPush.Publication.CommitMessages

namespace GitCommitsPush.Publication

open GitCommitsPush.Lib.JsText
open GitCommitsPush.Lib.Regex

/-! ## The form of a subject -/

/-- `(…)`, `!` and white space, each or none of them. -/
def Middle (middle : List Nat) : Prop :=
  ∃ scope mark spaces, middle = scope ++ (mark ++ spaces) ∧
    (scope = [] ∨ ∃ name, name ≠ [] ∧ (∀ c ∈ name, (c != 41) = true) ∧ scope = 40 :: (name ++ [41])) ∧
    (mark = [] ∨ mark = [33]) ∧ ∀ c ∈ spaces, isSpaceCode c = true

structure SubjectForm (subject type middle : List Nat) (space : Nat) (description : List Nat) : Prop where
  eq : subject = type ++ (middle ++ 58 :: space :: description)
  type_ne : type ≠ []
  type_word : ∀ c ∈ type, isWord c = true
  middle : Middle middle
  space : isSpaceCode space = true
  description_ne : description ≠ []
  description_line : ∀ c ∈ description, (!isLineTerminator c) = true

/-- Where a run of one class ends. -/
theorem run_unique {p : Nat → Bool} {a a' b b' : List Nat} {x x' : Nat} (h : a ++ x :: b = a' ++ x' :: b')
    (ha : ∀ c ∈ a, p c = true) (ha' : ∀ c ∈ a', p c = true) (hx : p x = false) (hx' : p x' = false) :
    a = a' ∧ x = x' ∧ b = b' := by
  induction a generalizing a' with
  | nil =>
    cases a' with
    | nil =>
      cases h
      exact ⟨rfl, rfl, rfl⟩
    | cons c a' =>
      cases h
      rw [ha' x List.mem_cons_self] at hx
      cases hx
  | cons c a ih =>
    cases a' with
    | nil =>
      cases h
      rw [ha x' List.mem_cons_self] at hx'
      cases hx'
    | cons c' a' =>
      obtain ⟨hc, htail⟩ := List.cons.inj h
      obtain ⟨hsame, hrest⟩ := ih htail (fun d hd => ha d (List.mem_cons_of_mem _ hd))
        fun d hd => ha' d (List.mem_cons_of_mem _ hd)
      exact ⟨by rw [hc, hsame], hrest⟩

/-- What follows the type is no part of a word. -/
theorem Middle.head {middle rest : List Nat} (h : Middle middle) :
    ∃ x tail, middle ++ 58 :: rest = x :: tail ∧ isWord x = false := by
  obtain ⟨scope, mark, spaces, rfl, hscope, hmark, hspaces⟩ := h
  rcases hscope with rfl | ⟨name, _, _, rfl⟩
  · rcases hmark with rfl | rfl
    · cases spaces with
      | nil => exact ⟨58, rest, rfl, by decide⟩
      | cons c spaces =>
        refine ⟨c, spaces ++ 58 :: rest, rfl, ?_⟩
        -- no white space is a letter, a digit or an underscore
        have hc := hspaces c List.mem_cons_self
        simp only [isSpaceCode, Bool.or_eq_true, Bool.and_eq_true, decide_eq_true_eq, beq_iff_eq] at hc
        simp only [isWord, isDigit, inRange, Bool.or_eq_false_iff, Bool.and_eq_false_iff, decide_eq_false_iff_not,
          beq_eq_false_iff_ne, ne_eq, show 'a'.toNat = 97 from rfl, show 'z'.toNat = 122 from rfl,
          show 'A'.toNat = 65 from rfl, show 'Z'.toNat = 90 from rfl, show '0'.toNat = 48 from rfl,
          show '9'.toNat = 57 from rfl, show '_'.toNat = 95 from rfl]
        omega
    · exact ⟨33, spaces ++ 58 :: rest, rfl, by decide⟩
  · exact ⟨40, name ++ [41] ++ (mark ++ spaces) ++ 58 :: rest, rfl, by decide⟩

/-- Without a scope, what comes next does not open one. -/
theorem middle_unique {middle middle' rest rest' : List Nat} (h : Middle middle) (h' : Middle middle')
    (heq : middle ++ 58 :: rest = middle' ++ 58 :: rest') : middle = middle' ∧ rest = rest' := by
  have hend : ∀ {mark mark' spaces spaces' rest rest' : List Nat}, (mark = [] ∨ mark = [33]) → (mark' = [] ∨ mark' = [33]) →
      (∀ c ∈ spaces, isSpaceCode c = true) → (∀ c ∈ spaces', isSpaceCode c = true) →
      mark ++ spaces ++ 58 :: rest = mark' ++ spaces' ++ 58 :: rest' → mark ++ spaces = mark' ++ spaces' ∧ rest = rest' := by
    intro mark mark' spaces spaces' rest rest' hmark hmark' hspaces hspaces' heq
    have hrun : ∀ {spaces spaces' : List Nat}, (∀ c ∈ spaces, isSpaceCode c = true) → (∀ c ∈ spaces', isSpaceCode c = true) →
        spaces ++ 58 :: rest = spaces' ++ 58 :: rest' → spaces = spaces' ∧ rest = rest' := by
      intro spaces spaces' hs hs' heq
      obtain ⟨hsame, _, hrest⟩ := run_unique heq hs hs' (by decide) (by decide)
      exact ⟨hsame, hrest⟩
    have hmixed : ∀ {spaces spaces' rest rest' : List Nat}, (∀ c ∈ spaces', isSpaceCode c = true) →
        33 :: (spaces ++ 58 :: rest) ≠ spaces' ++ 58 :: rest' := by
      intro spaces spaces' rest rest' hs' heq
      cases spaces' with
      | nil => cases heq
      | cons c spaces' =>
        have hc : 33 = c := (List.cons.inj heq).1
        exact absurd (hs' c List.mem_cons_self) (by rw [← hc]; decide)
    rcases hmark with rfl | rfl <;> rcases hmark' with rfl | rfl
    · exact hrun hspaces hspaces' heq
    · exact absurd heq.symm (hmixed hspaces)
    · exact absurd heq (hmixed hspaces')
    · obtain ⟨hsame, hrest⟩ := hrun hspaces hspaces' (List.cons.inj heq).2
      exact ⟨by rw [hsame], hrest⟩
  have hopen : ∀ {mark spaces tail rest : List Nat}, (mark = [] ∨ mark = [33]) → (∀ c ∈ spaces, isSpaceCode c = true) →
      mark ++ spaces ++ 58 :: rest ≠ 40 :: tail := by
    intro mark spaces tail rest hmark hspaces heq
    rcases hmark with rfl | rfl
    · cases spaces with
      | nil => cases heq
      | cons c spaces =>
        have hc : c = 40 := (List.cons.inj heq).1
        exact absurd (hspaces c List.mem_cons_self) (by rw [hc]; decide)
    · cases heq
  obtain ⟨scope, mark, spaces, rfl, hscope, hmark, hspaces⟩ := h
  obtain ⟨scope', mark', spaces', rfl, hscope', hmark', hspaces'⟩ := h'
  rcases hscope with rfl | ⟨name, _, hname, rfl⟩ <;> rcases hscope' with rfl | ⟨name', _, hname', rfl⟩
  · have heq : mark ++ spaces ++ 58 :: rest = mark' ++ spaces' ++ 58 :: rest' := heq
    have hsame := hend hmark hmark' hspaces hspaces' heq
    exact hsame
  · have heq : mark ++ spaces ++ 58 :: rest = 40 :: _ := heq
    exact absurd heq (hopen hmark hspaces)
  · have heq : mark' ++ spaces' ++ 58 :: rest' = 40 :: _ := heq.symm
    exact absurd heq (hopen hmark' hspaces')
  · have hrun : name ++ 41 :: (mark ++ spaces ++ 58 :: rest) = name' ++ 41 :: (mark' ++ spaces' ++ 58 :: rest') := by
      simpa using heq
    obtain ⟨hsame, _, hrest⟩ := run_unique hrun hname hname' (by decide) (by decide)
    obtain ⟨htail, hrest⟩ := hend hmark hmark' hspaces hspaces' hrest
    exact ⟨by rw [hsame, htail], hrest⟩

theorem SubjectForm.unique {subject type type' middle middle' description description' : List Nat} {space space' : Nat}
    (h : SubjectForm subject type middle space description) (h' : SubjectForm subject type' middle' space' description') :
    type = type' ∧ description = description' := by
  obtain ⟨x, tail, hhead, hx⟩ : ∃ x tail, middle ++ 58 :: (space :: description) = x :: tail ∧ _ := h.middle.head
  obtain ⟨x', tail', hhead', hx'⟩ : ∃ x tail, middle' ++ 58 :: (space' :: description') = x :: tail ∧ _ := h'.middle.head
  have heq := h.eq.symm.trans h'.eq
  rw [hhead, hhead'] at heq
  obtain ⟨htype, hxx, htail⟩ := run_unique heq h.type_word h'.type_word hx hx'
  have hrest : middle ++ 58 :: space :: description = middle' ++ 58 :: space' :: description' := by
    rw [hhead, hhead', hxx, htail]
  obtain ⟨_, hdescription⟩ := middle_unique h.middle h'.middle hrest
  exact ⟨htype, (List.cons.inj hdescription).2⟩

/-! ## The parts of the middle -/

def scopeUnits : Option (List Nat) → List Nat
  | none => []
  | some name => 40 :: (name ++ [41])

def markUnits (mark : Bool) : List Nat := if mark then [33] else []

/-- The form with the scope's name and the breaking mark told apart. -/
structure SubjectParts (subject type : List Nat) (name : Option (List Nat)) (mark : Bool) (spaces : List Nat)
    (space : Nat) (description : List Nat) : Prop where
  eq : subject = type ++ (scopeUnits name ++ (markUnits mark ++ spaces) ++ 58 :: space :: description)
  type_ne : type ≠ []
  type_word : ∀ c ∈ type, isWord c = true
  name : ∀ n ∈ name, n ≠ [] ∧ ∀ c ∈ n, (c != 41) = true
  spaces : ∀ c ∈ spaces, isSpaceCode c = true
  space : isSpaceCode space = true
  description_ne : description ≠ []
  description_line : ∀ c ∈ description, (!isLineTerminator c) = true

section Parts

variable {subject type type' spaces spaces' description description' : List Nat} {name name' : Option (List Nat)}
  {mark mark' : Bool} {space space' : Nat}

theorem SubjectParts.form (h : SubjectParts subject type name mark spaces space description) :
    SubjectForm subject type (scopeUnits name ++ (markUnits mark ++ spaces)) space description := by
  refine ⟨h.eq, h.type_ne, h.type_word, ⟨_, _, spaces, rfl, ?_, ?_, h.spaces⟩, h.space, h.description_ne,
    h.description_line⟩
  · cases name with
    | none => exact .inl rfl
    | some n => exact .inr ⟨n, (h.name n rfl).1, (h.name n rfl).2, rfl⟩
  · cases mark with
    | false => exact .inl rfl
    | true => exact .inr rfl

/-- A mark and white space begin with no other mark, and with no parenthesis. -/
theorem markUnits_unique (hspaces : ∀ c ∈ spaces, isSpaceCode c = true) (hspaces' : ∀ c ∈ spaces', isSpaceCode c = true)
    (heq : markUnits mark ++ spaces = markUnits mark' ++ spaces') : mark = mark' := by
  have hmixed : ∀ {a b : List Nat}, (∀ c ∈ b, isSpaceCode c = true) → 33 :: a ≠ b := by
    intro a b hb heq
    exact absurd (hb 33 (heq ▸ List.mem_cons_self)) (by decide)
  cases mark with
  | false =>
    cases mark' with
    | false => rfl
    | true => exact absurd heq.symm (hmixed hspaces)
  | true =>
    cases mark' with
    | false => exact absurd heq (hmixed hspaces')
    | true => rfl

theorem markUnits_not_open {tail : List Nat} (hspaces : ∀ c ∈ spaces, isSpaceCode c = true) :
    markUnits mark ++ spaces ≠ 40 :: tail := by
  intro heq
  have hmem : 40 ∈ markUnits mark ++ spaces := heq ▸ List.mem_cons_self
  rcases List.mem_append.mp hmem with hmem | hmem
  · cases mark <;> revert hmem <;> decide
  · exact absurd (hspaces 40 hmem) (by decide)

theorem SubjectParts.unique (h : SubjectParts subject type name mark spaces space description)
    (h' : SubjectParts subject type' name' mark' spaces' space' description') :
    type = type' ∧ name = name' ∧ mark = mark' ∧ description = description' := by
  obtain ⟨htype, hdescription⟩ := h.form.unique h'.form
  have heq := h.eq.symm.trans h'.eq
  rw [htype] at heq
  obtain ⟨hmiddle, _⟩ := middle_unique h.form.middle h'.form.middle (List.append_cancel_left heq)
  have hparts : name = name' ∧ mark = mark' := by
    cases name with
    | none =>
      cases name' with
      | none => exact ⟨rfl, markUnits_unique h.spaces h'.spaces hmiddle⟩
      | some n => exact absurd hmiddle (markUnits_not_open h.spaces)
    | some m =>
      cases name' with
      | none => exact absurd hmiddle.symm (markUnits_not_open h'.spaces)
      | some n =>
        have hrun : m ++ 41 :: (markUnits mark ++ spaces) = n ++ 41 :: (markUnits mark' ++ spaces') := by
          simpa [scopeUnits] using hmiddle
        obtain ⟨hname, _, hrest⟩ := run_unique hrun (h.name m rfl).2 (h'.name n rfl).2 (by decide) (by decide)
        exact ⟨by rw [hname], markUnits_unique h.spaces h'.spaces hrest⟩
  exact ⟨htype, hparts.1, hparts.2, hdescription⟩

end Parts

/-! ## `COMMIT_MSG_REGEX` -/

section Threads

variable {t t' : Thread}

theorem mem_threads_groupRun {n min : Nat} {p : Nat → Bool} {greedy : Bool} :
    t' ∈ threads (.group n (.rep (.one p) min none greedy)) t ↔ ∃ run, (∀ c ∈ run, p c = true) ∧ min ≤ run.length ∧
      Consumes run t.1 t'.1 ∧ t'.2 = (n, run) :: t.2.filter (·.1 != n) := by
  rw [mem_threads_group]
  constructor
  · rintro ⟨u, hu, rfl⟩
    obtain ⟨run, hrun, hmin, hconsumes, hcaptures⟩ := mem_threads_rep.mp hu
    exact ⟨run, hrun, hmin, hconsumes, by rw [hconsumes.between, hcaptures]⟩
  · intro ⟨run, hrun, hmin, hconsumes, hcaptures⟩
    refine ⟨(t'.1, t.2), mem_threads_rep.mpr ⟨run, hrun, hmin, hconsumes, rfl⟩, Prod.ext rfl ?_⟩
    show t'.2 = (n, between t.1 t'.1) :: t.2.filter (·.1 != n)
    rw [hconsumes.between, hcaptures]

theorem capture_groupRun {n k : Nat} {run : List Nat} (h : t'.2 = (n, run) :: t.2.filter (·.1 != n)) :
    capture k t' = if n = k then some run else capture k t := by
  obtain ⟨place, captures⟩ := t
  obtain ⟨place', captures'⟩ := t'
  cases h
  rw [capture_group]
  rfl

def scopeRe : Re := seqAll [lit "(", .group 2 (plus fun c => c != ')'.toNat), lit ")"]

def markRe : Re := .group 3 (lit "!")

theorem mem_threads_scope : t' ∈ threads scopeRe t ↔ ∃ name, name ≠ [] ∧ (∀ c ∈ name, (c != 41) = true) ∧
    Consumes (40 :: (name ++ [41])) t.1 t'.1 ∧ t'.2 = (2, name) :: t.2.filter (·.1 != 2) := by
  show t' ∈ threads (.seq (.one (· == 40)) (.seq (.group 2 (.rep (.one fun c => c != 41) 1 none true)) (.one (· == 41)))) t ↔ _
  simp only [mem_threads_seq, mem_threads_one, mem_threads_groupRun]
  constructor
  · intro ⟨u, ⟨c, hc, hopen, hu⟩, v, ⟨name, hname, hlength, hconsumes, hv⟩, d, hd, hclose, ht⟩
    have hc : c = 40 := by simpa using hc
    have hd : d = 41 := by simpa using hd
    subst hc hd
    refine ⟨name, fun hnil => ?_, hname, (hopen.trans hconsumes).trans hclose, by rw [ht, hv, hu]⟩
    rw [hnil] at hlength
    exact absurd hlength (by simp)
  · intro ⟨name, hne, hname, hconsumes, hcaptures⟩
    have hafter : t.1.after = [40] ++ (name ++ ([41] ++ t'.1.after)) := by
      rw [hconsumes.after]
      simp
    have h1 := consumes_of_after hafter
    have h2 : Consumes name ⟨[40].reverse ++ t.1.before, name ++ ([41] ++ t'.1.after)⟩
        ⟨name.reverse ++ ([40].reverse ++ t.1.before), [41] ++ t'.1.after⟩ := ⟨rfl, rfl⟩
    refine ⟨(_, t.2), ⟨40, rfl, h1, rfl⟩, (_, (2, name) :: t.2.filter (·.1 != 2)),
      ⟨name, hname, List.length_pos_of_ne_nil hne, h2, rfl⟩, 41, rfl, ⟨rfl, ?_⟩, hcaptures⟩
    rw [hconsumes.before]
    simp

theorem mem_threads_mark : t' ∈ threads markRe t ↔ Consumes [33] t.1 t'.1 ∧ t'.2 = (3, [33]) :: t.2.filter (·.1 != 3) := by
  show t' ∈ threads (.group 3 (.one (· == 33))) t ↔ _
  rw [mem_threads_group]
  constructor
  · rintro ⟨u, hu, rfl⟩
    obtain ⟨c, hc, hconsumes, hcaptures⟩ := mem_threads_one.mp hu
    have hc : c = 33 := by simpa using hc
    subst hc
    exact ⟨hconsumes, by rw [hconsumes.between, hcaptures]⟩
  · intro ⟨hconsumes, hcaptures⟩
    refine ⟨(t'.1, t.2), mem_threads_one.mpr ⟨33, rfl, hconsumes, rfl⟩, Prod.ext rfl ?_⟩
    show t'.2 = (3, between t.1 t'.1) :: t.2.filter (·.1 != 3)
    rw [hconsumes.between, hcaptures]

/-- An optional part: what it consumes, and the captures it leaves alone. -/
theorem mem_threads_optionalScope : t' ∈ threads (optional scopeRe) t ↔
    (∃ name, name ≠ [] ∧ (∀ c ∈ name, (c != 41) = true) ∧ Consumes (40 :: (name ++ [41])) t.1 t'.1 ∧
      t'.2 = (2, name) :: (forget [2] t).2.filter (·.1 != 2)) ∨ t' = t := by
  rw [mem_threads_optional]
  · show t' ∈ threads scopeRe (forget [2] t) ∨ t' = t ↔ _
    rw [mem_threads_scope]
    exact Iff.rfl
  · intro u u' hu
    obtain ⟨name, _, _, hconsumes, _⟩ := mem_threads_scope.mp hu
    have hlength := congrArg List.length hconsumes.after
    simp only [List.length_append, List.length_cons] at hlength
    omega

theorem mem_threads_optionalMark : t' ∈ threads (optional markRe) t ↔
    (Consumes [33] t.1 t'.1 ∧ t'.2 = (3, [33]) :: (forget [3] t).2.filter (·.1 != 3)) ∨ t' = t := by
  rw [mem_threads_optional]
  · show t' ∈ threads markRe (forget [3] t) ∨ t' = t ↔ _
    rw [mem_threads_mark]
    exact Iff.rfl
  · intro u u' hu
    rw [(mem_threads_mark.mp hu).1.after]
    simp

end Threads

theorem commitMsgRe_eq : COMMIT_MSG_REGEX = .seq .atStart (.seq (.group 1 (.rep (.one isWord) 1 none true))
    (.seq (optional scopeRe) (.seq (optional markRe) (.seq (.rep (.one isSpaceCode) 0 none true) (.seq (.one (· == 58))
      (.seq (.one isSpaceCode) (.seq (.group 4 (.rep (.one (!isLineTerminator ·)) 1 none true)) .atEnd))))))) := rfl

/-- Every way to match is the form, with its parts captured. -/
theorem commitMsg_threads {subject : List Nat} {t' : Thread} (h : t' ∈ threads COMMIT_MSG_REGEX (⟨[], subject⟩, [])) :
    ∃ type name mark spaces space description, SubjectParts subject type name mark spaces space description ∧
      capture 1 t' = some type ∧ capture 2 t' = name ∧ (capture 3 t').isSome = mark ∧ capture 4 t' = some description := by
  rw [commitMsgRe_eq] at h
  obtain ⟨t0, h0, h⟩ := mem_threads_seq.mp h
  obtain ⟨_, rfl⟩ := mem_threads_atStart.mp h0
  obtain ⟨t1, h1, h⟩ := mem_threads_seq.mp h
  obtain ⟨type, htype, hlength, hc1, hcaptures1⟩ := mem_threads_groupRun.mp h1
  have hearlier1 : ∀ k, k ≠ 1 → capture k t1 = none := fun k hk => by
    rw [capture_groupRun hcaptures1, if_neg (Ne.symm hk)]
    rfl
  have htype1 : capture 1 t1 = some type := by rw [capture_groupRun hcaptures1, if_pos rfl]
  obtain ⟨t2, h2, h⟩ := mem_threads_seq.mp h
  have hscope : ∃ name : Option (List Nat), (∀ n ∈ name, n ≠ [] ∧ ∀ c ∈ n, (c != 41) = true) ∧
      Consumes (scopeUnits name) t1.1 t2.1 ∧ capture 1 t2 = some type ∧ capture 2 t2 = name ∧ capture 3 t2 = none := by
    rcases mem_threads_optionalScope.mp h2 with ⟨name, hne, hname, hconsumes, hcaptures⟩ | rfl
    · refine ⟨some name, fun n hn => ?_, hconsumes, ?_, ?_, ?_⟩
      · cases hn
        exact ⟨hne, hname⟩
      · rw [capture_groupRun (t := forget [2] t1) hcaptures, if_neg (by decide), capture_forget (by decide), htype1]
      · rw [capture_groupRun (t := forget [2] t1) hcaptures, if_pos rfl]
      · rw [capture_groupRun (t := forget [2] t1) hcaptures, if_neg (by decide), capture_forget (by decide),
          hearlier1 3 (by decide)]
    · exact ⟨none, fun n hn => (by cases hn), Consumes.refl _, htype1, hearlier1 2 (by decide), hearlier1 3 (by decide)⟩
  obtain ⟨name, hname, hc2, htype2, hname2, hmark2⟩ := hscope
  obtain ⟨t3, h3, h⟩ := mem_threads_seq.mp h
  have hmark : ∃ mark, Consumes (markUnits mark) t2.1 t3.1 ∧ capture 1 t3 = some type ∧ capture 2 t3 = name ∧
      (capture 3 t3).isSome = mark := by
    rcases mem_threads_optionalMark.mp h3 with ⟨hconsumes, hcaptures⟩ | rfl
    · refine ⟨true, hconsumes, ?_, ?_, ?_⟩
      · rw [capture_groupRun (t := forget [3] t2) hcaptures, if_neg (by decide), capture_forget (by decide), htype2]
      · rw [capture_groupRun (t := forget [3] t2) hcaptures, if_neg (by decide), capture_forget (by decide), hname2]
      · rw [capture_groupRun (t := forget [3] t2) hcaptures, if_pos rfl]
        rfl
    · exact ⟨false, Consumes.refl _, htype2, hname2, by rw [hmark2]; rfl⟩
  obtain ⟨mark, hc3, htype3, hname3, hmark3⟩ := hmark
  obtain ⟨t4, h4, h⟩ := mem_threads_seq.mp h
  obtain ⟨spaces, hspaces, _, hc4, hcaptures4⟩ := mem_threads_rep.mp h4
  obtain ⟨t5, h5, h⟩ := mem_threads_seq.mp h
  obtain ⟨colon, hcolon, hc5, hcaptures5⟩ := mem_threads_one.mp h5
  have hcolon : colon = 58 := by simpa using hcolon
  obtain ⟨t6, h6, h⟩ := mem_threads_seq.mp h
  obtain ⟨space, hspace, hc6, hcaptures6⟩ := mem_threads_one.mp h6
  obtain ⟨t7, h7, h8⟩ := mem_threads_seq.mp h
  obtain ⟨description, hdescription, hone, hc7, hcaptures7⟩ := mem_threads_groupRun.mp h7
  obtain ⟨hend, rfl⟩ := mem_threads_atEnd.mp h8
  -- the groups before the fourth are as the mark left them
  have hkept : ∀ k, k ≠ 4 → capture k t' = capture k t3 := fun k hk => by
    rw [capture_groupRun hcaptures7, if_neg (Ne.symm hk), capture_of_captures hcaptures6, capture_of_captures hcaptures5,
      capture_of_captures hcaptures4]
  have hall := (((((hc1.trans hc2).trans hc3).trans hc4).trans hc5).trans hc6).trans hc7
  refine ⟨type, name, mark, spaces, space, description, ⟨?_, ?_, htype, hname, hspaces, hspace, ?_, hdescription⟩,
    (hkept 1 (by decide)).trans htype3, (hkept 2 (by decide)).trans hname3, (hkept 3 (by decide)) ▸ hmark3,
    by rw [capture_groupRun hcaptures7, if_pos rfl]⟩
  · have hsubject : subject = _ ++ t'.1.after := hall.after
    rw [hend, List.append_nil] at hsubject
    rw [hsubject, hcolon]
    simp
  · intro hnil
    rw [hnil] at hlength
    exact absurd hlength (by decide)
  · intro hnil
    rw [hnil] at hone
    exact absurd hone (by decide)

/-- A subject of the form is matched. -/
theorem commitMsg_threads_ne_nil {subject type middle description : List Nat} {space : Nat}
    (h : SubjectForm subject type middle space description) : threads COMMIT_MSG_REGEX (⟨[], subject⟩, []) ≠ [] := by
  obtain ⟨scope, mark, spaces, rfl, hscope, hmark, hspaces⟩ := h.middle
  have hsubject : subject = type ++ (scope ++ (mark ++ (spaces ++ ([58] ++ ([space] ++ (description ++ [])))))) := by
    rw [h.eq]
    simp
  have h1 : ((⟨type.reverse ++ [], _⟩, [(1, type)]) : Thread) ∈
      threads (.group 1 (.rep (.one isWord) 1 none true)) (⟨[], subject⟩, []) :=
    mem_threads_groupRun.mpr ⟨type, h.type_word, List.length_pos_of_ne_nil h.type_ne, consumes_of_after hsubject, rfl⟩
  obtain ⟨captures2, h2⟩ : ∃ captures, ∀ before rest : List Nat,
      ((⟨scope.reverse ++ before, rest⟩, captures) : Thread) ∈ threads (optional scopeRe)
        (⟨before, scope ++ rest⟩, [(1, type)]) := by
    rcases hscope with rfl | ⟨name, hne, hname, rfl⟩
    · exact ⟨[(1, type)], fun _ _ => mem_threads_optionalScope.mpr (.inr rfl)⟩
    · exact ⟨(2, name) :: (forget [2] (⟨[], []⟩, [(1, type)])).2.filter (·.1 != 2),
        fun _ _ => mem_threads_optionalScope.mpr (.inl ⟨name, hne, hname, ⟨rfl, rfl⟩, rfl⟩)⟩
  obtain ⟨captures3, h3⟩ : ∃ captures, ∀ before rest : List Nat,
      ((⟨mark.reverse ++ before, rest⟩, captures) : Thread) ∈ threads (optional markRe) (⟨before, mark ++ rest⟩, captures2) := by
    rcases hmark with rfl | rfl
    · exact ⟨captures2, fun _ _ => mem_threads_optionalMark.mpr (.inr rfl)⟩
    · exact ⟨(3, [33]) :: (forget [3] (⟨[], []⟩, captures2)).2.filter (·.1 != 3),
        fun _ _ => mem_threads_optionalMark.mpr (.inl ⟨⟨rfl, rfl⟩, rfl⟩)⟩
  have h4 : ∀ before rest : List Nat, ((⟨spaces.reverse ++ before, rest⟩, captures3) : Thread) ∈
      threads (.rep (.one isSpaceCode) 0 none true) (⟨before, spaces ++ rest⟩, captures3) :=
    fun _ _ => mem_threads_rep.mpr ⟨spaces, hspaces, Nat.zero_le _, ⟨rfl, rfl⟩, rfl⟩
  have hone : ∀ (p : Nat → Bool) (c : Nat), p c = true → ∀ before rest : List Nat,
      ((⟨[c].reverse ++ before, rest⟩, captures3) : Thread) ∈ threads (.one p) (⟨before, [c] ++ rest⟩, captures3) :=
    fun p c hc _ _ => mem_threads_one.mpr ⟨c, hc, ⟨rfl, rfl⟩, rfl⟩
  have h7 : ∀ before rest : List Nat,
      ((⟨description.reverse ++ before, rest⟩, (4, description) :: captures3.filter (·.1 != 4)) : Thread) ∈
        threads (.group 4 (.rep (.one (!isLineTerminator ·)) 1 none true)) (⟨before, description ++ rest⟩, captures3) :=
    fun _ _ => mem_threads_groupRun.mpr
      ⟨description, h.description_line, List.length_pos_of_ne_nil h.description_ne, ⟨rfl, rfl⟩, rfl⟩
  rw [commitMsgRe_eq]
  exact List.ne_nil_of_mem (mem_threads_seq.mpr ⟨_, mem_threads_atStart.mpr ⟨rfl, rfl⟩, mem_threads_seq.mpr ⟨_, h1,
    mem_threads_seq.mpr ⟨_, h2 _ _, mem_threads_seq.mpr ⟨_, h3 _ _, mem_threads_seq.mpr ⟨_, h4 _ _,
      mem_threads_seq.mpr ⟨_, hone (· == 58) 58 rfl _ _, mem_threads_seq.mpr ⟨_, hone isSpaceCode space h.space _ _,
        mem_threads_seq.mpr ⟨_, h7 _ _, mem_threads_atEnd.mpr ⟨rfl, rfl⟩⟩⟩⟩⟩⟩⟩⟩⟩)

theorem commitMsg_atStart (t : Thread) (h : t.1.before ≠ []) : threads COMMIT_MSG_REGEX t = [] := by
  rw [commitMsgRe_eq, List.eq_nil_iff_forall_not_mem]
  intro t' ht'
  obtain ⟨u, hu, _⟩ := mem_threads_seq.mp ht'
  exact h (mem_threads_atStart.mp hu).1

/-- The type and the description of a subject are those of its form. -/
theorem parseSubject_eq {subject : String} {type middle description : List Nat} {space : Nat}
    (h : SubjectForm (units subject) type middle space description) :
    parseSubject subject = some (stringOfUnits type, stringOfUnits description) := by
  have hall : ∀ t ∈ threads COMMIT_MSG_REGEX (⟨[], units subject⟩, []),
      capture 1 t = some type ∧ capture 4 t = some description := by
    intro t ht
    obtain ⟨type', name, mark, spaces, space', description', hparts, hone, _, _, hfour⟩ := commitMsg_threads ht
    obtain ⟨htype, hdescription⟩ := h.unique hparts.form
    exact ⟨htype ▸ hone, hdescription ▸ hfour⟩
  obtain ⟨t, hexec, hone, hfour⟩ := exec_eq_some_of_unique commitMsg_atStart hall (commitMsg_threads_ne_nil h)
  unfold parseSubject
  rw [hexec, Option.bind_some]
  dsimp only
  rw [hone, hfour]

theorem parts_of_parseSubject {subject type description : String} (h : parseSubject subject = some (type, description)) :
    ∃ typeUnits name mark spaces space descriptionUnits,
      SubjectParts (units subject) typeUnits name mark spaces space descriptionUnits ∧
        type = stringOfUnits typeUnits ∧ description = stringOfUnits descriptionUnits := by
  unfold parseSubject at h
  rw [exec_atStart commitMsg_atStart] at h
  cases hthreads : threads COMMIT_MSG_REGEX (⟨[], units subject⟩, []) with
  | nil =>
    rw [hthreads] at h
    cases h
  | cons t ts =>
    obtain ⟨typeUnits, name, mark, spaces, space, descriptionUnits, hparts, hone, _, _, hfour⟩ :=
      commitMsg_threads (hthreads ▸ List.mem_cons_self)
    rw [hthreads, List.head?_cons, Option.map_some, Option.bind_some] at h
    dsimp only at h
    rw [hone, hfour] at h
    cases h
    exact ⟨typeUnits, name, mark, spaces, space, descriptionUnits, hparts, rfl, rfl⟩

theorem form_of_parseSubject {subject type description : String} (h : parseSubject subject = some (type, description)) :
    ∃ typeUnits middle space descriptionUnits, SubjectForm (units subject) typeUnits middle space descriptionUnits ∧
      type = stringOfUnits typeUnits ∧ description = stringOfUnits descriptionUnits := by
  obtain ⟨typeUnits, _, _, _, space, descriptionUnits, hparts, htype, hdescription⟩ := parts_of_parseSubject h
  exact ⟨typeUnits, _, space, descriptionUnits, hparts.form, htype, hdescription⟩

end GitCommitsPush.Publication
