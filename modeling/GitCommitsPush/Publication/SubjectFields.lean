/-
  GitCommitsPush.Publication.SubjectFields — whether a valid message says what its plan says
  (`formatters/commit-formatter.ts`, `core/validators/commit-message-validator.ts`).

  The formatter writes the fields of a plan as they are and the validator reads them back
  from the text. `says_plan_iff`: what it reads are the plan's type, scope and mark exactly
  when the type is a word and the scope has no closing parenthesis; `scope_in_type` is a
  valid message whose type has a scope in it.
-/

import GitCommitsPush.Publication.RepairRoom

namespace GitCommitsPush.Publication

open GitCommitsPush.Lib.JsText
open GitCommitsPush.Lib.Regex

/-! ## The grammar's reading -/

structure SubjectMatch where
  type : Option String
  scope : Option String
  isBreaking : Bool
  deriving DecidableEq, Repr

/-- `subject.match(COMMIT_MSG_REGEX)`, its first three groups. -/
def matchSubject (subject : String) : Option SubjectMatch :=
  (exec COMMIT_MSG_REGEX (units subject)).map fun m =>
    ⟨(capture 1 m.2).map stringOfUnits, (capture 2 m.2).map stringOfUnits, (capture 3 m.2).isSome⟩

/-- The scope, an empty one being none. -/
def CommitMessage.scopeName (commit : CommitMessage) : Option String := commit.scope.filter (· != "")

/-- The subject of the message reads as the plan's type, scope and mark. -/
def SaysPlan (commit : CommitMessage) : Prop :=
  matchSubject (messageSubject (formatConventionalCommit commit)) =
    some ⟨some commit.type, commit.scopeName, commit.isBreaking⟩

/-- The type is a word; no parenthesis closes in the scope. -/
def PlainFields (commit : CommitMessage) : Prop :=
  (∀ c ∈ commit.type.toList, isWord c.toNat = true) ∧ ∀ scope ∈ commit.scope, ')' ∉ scope.toList

theorem matchSubject_eq {subject : String} {type spaces description : List Nat} {name : Option (List Nat)} {mark : Bool}
    {space : Nat} (h : SubjectParts (units subject) type name mark spaces space description) :
    matchSubject subject = some ⟨some (stringOfUnits type), name.map stringOfUnits, mark⟩ := by
  have hall : ∀ t ∈ threads COMMIT_MSG_REGEX (⟨[], units subject⟩, []),
      capture 1 t = some type ∧ capture 2 t = name ∧ (capture 3 t).isSome = mark := by
    intro t ht
    obtain ⟨type', name', mark', spaces', space', description', hparts, hone, htwo, hthree, _⟩ := commitMsg_threads ht
    obtain ⟨htype, hname, hmark, _⟩ := h.unique hparts
    exact ⟨htype ▸ hone, hname ▸ htwo, hmark ▸ hthree⟩
  obtain ⟨t, hexec, hone, htwo, hthree⟩ := exec_eq_some_of_unique commitMsg_atStart hall (commitMsg_threads_ne_nil h.form)
  unfold matchSubject
  rw [hexec, Option.map_some]
  dsimp only
  rw [hone, htwo, hthree]
  rfl

/-! ## Units and characters -/

theorem isWord_lt {n : Nat} (h : isWord n = true) : n < 0x80 := by
  simp only [isWord, isDigit, inRange, Bool.or_eq_true, Bool.and_eq_true, decide_eq_true_eq, beq_iff_eq,
    show 'a'.toNat = 97 from rfl, show 'z'.toNat = 122 from rfl, show 'A'.toNat = 65 from rfl,
    show 'Z'.toNat = 90 from rfl, show '0'.toNat = 48 from rfl, show '9'.toNat = 57 from rfl,
    show '_'.toNat = 95 from rfl] at h
  omega

/-- A unit below the surrogates is a character. -/
theorem mem_codeUnits {c : Char} {u : Nat} (hu : u < 0xD800) (h : u ∈ codeUnits c) : c.toNat = u := by
  by_cases hc : c.toNat < 0x10000
  · rw [(codeUnits_small hc).1] at h
    exact (List.mem_singleton.mp h).symm
  · obtain ⟨high, low, hunits, hhigh, hlow, _⟩ := codeUnits_large hc
    rw [hunits] at h
    rcases List.mem_cons.mp h with h | h
    · omega
    · cases List.mem_singleton.mp h
      omega

theorem units_word {s : String} (h : ∀ c ∈ s.toList, isWord c.toNat = true) : ∀ u ∈ units s, isWord u = true := by
  intro u hu
  obtain ⟨c, hc, huc⟩ := List.mem_flatMap.mp hu
  have hword := h c hc
  have hlt := isWord_lt hword
  rw [(codeUnits_small (by omega)).1] at huc
  exact List.mem_singleton.mp huc ▸ hword

theorem units_no_close {s : String} (h : ')' ∉ s.toList) : ∀ u ∈ units s, (u != 41) = true := by
  intro u hu
  rw [bne_iff_ne]
  intro hclose
  obtain ⟨c, hc, huc⟩ := List.mem_flatMap.mp hu
  have hcode := mem_codeUnits (by omega) huc
  rw [hclose] at hcode
  exact h (Char.toNat_inj.mp (hcode.trans (show 41 = ')'.toNat from rfl)) ▸ hc)

theorem toNat_ofNat {n : Nat} (h : n < 0xD800) : (Char.ofNat n).toNat = n := by
  rw [Char.ofNat, dif_pos (Or.inl h)]
  rfl

/-- Units below the surrogates are decoded one by one. -/
theorem ofUnits_small {us : List Nat} (h : ∀ u ∈ us, u < 0xD800) : ofUnits us = us.map Char.ofNat := by
  induction us with
  | nil => rfl
  | cons u us ih =>
    have hu := h u List.mem_cons_self
    unfold ofUnits
    rw [if_neg (by omega), if_neg (by omega), ih fun v hv => h v (List.mem_cons_of_mem u hv)]
    rfl

theorem ofNat_eq_close {n : Nat} (h : Char.ofNat n = ')') : n = 41 := by
  unfold Char.ofNat at h
  by_cases hn : n.isValidChar
  · rw [dif_pos hn] at h
    exact congrArg Char.toNat h
  · rw [dif_neg hn] at h
    exact absurd (congrArg Char.toNat h) (by decide)

/-- A parenthesis that is decoded was a unit. -/
theorem close_mem_ofUnits {us : List Nat} (h : ')' ∈ ofUnits us) : 41 ∈ us := by
  fun_induction ofUnits us with
  | case1 => cases h
  | case2 u hu v rest hv ih =>
    rcases List.mem_cons.mp h with h | h
    · have hcode := ofNat_eq_close h.symm
      omega
    · exact List.mem_cons_of_mem _ (List.mem_cons_of_mem _ (ih h))
  | case3 u hu v rest hv ih =>
    rcases List.mem_cons.mp h with h | h
    · exact absurd h (by decide)
    · exact List.mem_cons_of_mem _ (ih h)
  | case4 u hu => exact absurd h (by decide)
  | case5 u rest hhigh hlow ih =>
    rcases List.mem_cons.mp h with h | h
    · exact absurd h (by decide)
    · exact List.mem_cons_of_mem _ (ih h)
  | case6 u rest hhigh hlow ih =>
    rcases List.mem_cons.mp h with h | h
    · exact ofNat_eq_close h.symm ▸ List.mem_cons_self
    · exact List.mem_cons_of_mem _ (ih h)

/-! ## What the plan's fields are read as -/

/-- Fields that are read back are plain. -/
theorem plain_of_read {type : List Nat} {name : Option (List Nat)} {commit : CommitMessage}
    (hword : ∀ u ∈ type, isWord u = true) (hname : ∀ n ∈ name, ∀ u ∈ n, (u != 41) = true)
    (htype : stringOfUnits type = commit.type) (hscope : name.map stringOfUnits = commit.scopeName) :
    PlainFields commit := by
  have hsmall : ∀ u ∈ type, u < 0xD800 := fun u hu => Nat.lt_trans (isWord_lt (hword u hu)) (by decide)
  constructor
  · intro c hc
    rw [← htype, stringOfUnits, String.toList_ofList, ofUnits_small hsmall] at hc
    obtain ⟨u, hu, rfl⟩ := List.mem_map.mp hc
    rw [toNat_ofNat (hsmall u hu)]
    exact hword u hu
  · intro scope hmem hclose
    have hne : scope ≠ "" := fun h => by
      rw [h] at hclose
      cases hclose
    have hkept : commit.scopeName = some scope := by
      unfold CommitMessage.scopeName
      rw [hmem, Option.filter_some, if_pos (by simpa using hne)]
    rw [hkept] at hscope
    obtain ⟨n, hn, hread⟩ := Option.map_eq_some_iff.mp hscope
    rw [← hread, stringOfUnits, String.toList_ofList] at hclose
    exact absurd (hname n hn 41 (close_mem_ofUnits hclose)) (by decide)

theorem units_ne_nil {s : String} (h : s ≠ "") : units s ≠ [] := by
  intro hnil
  have hback := stringOfUnits_units s
  rw [hnil] at hback
  exact h hback.symm

def scopeChars : Option String → List Char
  | none => []
  | some scope => '(' :: (scope.toList ++ [')'])

def markChars (mark : Bool) : List Char := if mark then ['!'] else []

theorem commitHeader_eq (commit : CommitMessage) :
    commitHeader commit = commit.type.toList ++ (scopeChars commit.scopeName ++ markChars commit.isBreaking) := by
  obtain ⟨type, scope, description, body, isBreaking⟩ := commit
  have hmark : (if isBreaking then "!" else "").toList = markChars isBreaking := by cases isBreaking <;> rfl
  unfold commitHeader CommitMessage.scopeName
  dsimp only
  rw [hmark, List.append_assoc]
  cases scope with
  | none => rfl
  | some scope =>
    by_cases hempty : scope = ""
    · rw [hempty]
      rfl
    · dsimp only
      rw [if_neg hempty, Option.filter_some, if_pos (by simpa using hempty), String.toList_append, String.toList_append]
      simp [scopeChars]

/-- The units of the header are those of the fields. -/
theorem commitHeader_units (commit : CommitMessage) :
    (commitHeader commit).flatMap codeUnits =
      units commit.type ++ (scopeUnits (commit.scopeName.map units) ++ markUnits commit.isBreaking) := by
  have hscope : (scopeChars commit.scopeName).flatMap codeUnits = scopeUnits (commit.scopeName.map units) := by
    cases commit.scopeName with
    | none => rfl
    | some scope => simp [scopeChars, scopeUnits, units, codeUnits]
  have hmark : (markChars commit.isBreaking).flatMap codeUnits = markUnits commit.isBreaking := by
    cases commit.isBreaking <;> rfl
  rw [commitHeader_eq, List.flatMap_append, List.flatMap_append, hscope, hmark]
  rfl

theorem not_space_of_isWord {c : Char} (h : isWord c.toNat = true) : isSpace c = false := by
  simp only [isWord, isDigit, inRange, Bool.or_eq_true, Bool.and_eq_true, decide_eq_true_eq, beq_iff_eq,
    show 'a'.toNat = 97 from rfl, show 'z'.toNat = 122 from rfl, show 'A'.toNat = 65 from rfl,
    show 'Z'.toNat = 90 from rfl, show '0'.toNat = 48 from rfl, show '9'.toNat = 57 from rfl,
    show '_'.toNat = 95 from rfl] at h
  simp only [isSpace, isSpaceCode, Bool.or_eq_false_iff, Bool.and_eq_false_iff, decide_eq_false_iff_not,
    beq_eq_false_iff_ne]
  omega

/-- Nothing of a header with a plain type is trimmed. -/
theorem headStart_plain {commit : CommitMessage} (hplain : PlainFields commit) :
    headStart (commitHeader commit) = commitHeader commit := by
  have hkept : ∀ {c : Char} {cs : List Char}, isSpace c = false → headStart (c :: cs) = c :: cs := fun {c cs} hc => by
    unfold headStart trimStart
    rw [List.dropWhile_cons_of_neg (by rw [hc]; exact Bool.false_ne_true)]
  rw [commitHeader_eq]
  cases htype : commit.type.toList with
  | cons c cs => exact hkept (not_space_of_isWord (hplain.1 c (htype ▸ List.mem_cons_self)))
  | nil =>
    cases commit.scopeName with
    | some scope => exact hkept (by decide)
    | none =>
      cases commit.isBreaking with
      | true => exact hkept (by decide)
      | false => rfl

/-- A line break in the header is in the scope, and leaves a parenthesis open. -/
theorem header_line {commit : CommitMessage} (hplain : PlainFields commit) (hline : '\n' ∈ commitHeader commit) :
    ∃ rest, (trim ((commitHeader commit).takeWhile (· != '\n'))).flatMap codeUnits = units commit.type ++ 40 :: rest ∧
      41 ∉ rest := by
  have htypeLine : '\n' ∉ commit.type.toList := fun hmem => absurd (hplain.1 _ hmem) (by decide)
  rw [commitHeader_eq] at hline ⊢
  have hscopeLine : '\n' ∈ scopeChars commit.scopeName := by
    rcases List.mem_append.mp hline with hmem | hmem
    · exact absurd hmem htypeLine
    rcases List.mem_append.mp hmem with hmem | hmem
    · exact hmem
    · have hmark : ∀ mark, '\n' ∉ markChars mark := by decide
      exact absurd hmem (hmark _)
  cases hscope : commit.scopeName with
  | none =>
    rw [hscope] at hscopeLine
    cases hscopeLine
  | some scope =>
    rw [hscope] at hscopeLine
    have hinside : '\n' ∈ scope.toList := by simpa [scopeChars] using hscopeLine
    have hclose : ')' ∉ scope.toList := hplain.2 scope (Option.filter_eq_some_iff.mp hscope).1
    -- the first line ends inside the scope
    have hstop : ∀ rest, (scope.toList ++ rest).takeWhile (· != '\n') = scope.toList.takeWhile (· != '\n') := by
      intro rest
      rw [List.takeWhile_append, if_neg]
      intro hlength
      have hsame := (List.takeWhile_prefix (· != '\n') (l := scope.toList)).eq_of_length hlength
      have hall := List.all_takeWhile (p := (· != '\n')) (l := scope.toList)
      rw [hsame] at hall
      exact absurd (List.all_eq_true.mp hall '\n' hinside) (by decide)
    have hfirst : (commit.type.toList ++ (scopeChars (some scope) ++ markChars commit.isBreaking)).takeWhile (· != '\n') =
        commit.type.toList ++ '(' :: scope.toList.takeWhile (· != '\n') := by
      rw [List.takeWhile_append_of_pos fun c hc => bne_iff_ne.mpr fun heq : c = '\n' => htypeLine (heq ▸ hc)]
      simp only [scopeChars, List.cons_append, List.append_assoc]
      rw [List.takeWhile_cons_of_pos (by decide), hstop]
    have htype : trimStart commit.type.toList = commit.type.toList := by
      unfold trimStart
      cases hchars : commit.type.toList with
      | nil => rfl
      | cons c cs =>
        have hc := not_space_of_isWord (hplain.1 c (hchars ▸ List.mem_cons_self))
        rw [List.dropWhile_cons_of_neg (by rw [hc]; exact Bool.false_ne_true)]
    rw [hfirst, trim, trimStart_stop (by decide), trimEnd_stop (by decide), htype, List.flatMap_append, List.flatMap_cons]
    refine ⟨_, rfl, fun hmem => ?_⟩
    obtain ⟨c, hc, hunit⟩ := List.mem_flatMap.mp hmem
    have hcode : c = ')' := Char.toNat_inj.mp ((mem_codeUnits (by omega) hunit).trans rfl)
    exact hclose (hcode ▸ (List.takeWhile_prefix _).subset ((trimEnd_isPrefix _).subset hc))

/-- Plain fields are read back. -/
theorem read_of_plain {commit : CommitMessage} (hplain : PlainFields commit) {type spaces description : List Nat}
    {name : Option (List Nat)} {mark : Bool} {space : Nat}
    (h : SubjectParts (units (messageSubject (formatConventionalCommit commit))) type name mark spaces space description) :
    type = units commit.type ∧ name = commit.scopeName.map units ∧ mark = commit.isBreaking := by
  have hword := units_word hplain.1
  obtain ⟨x, tail, hhead, hx⟩ := @Middle.head _ (space :: description) h.form.middle
  rw [formatConventionalCommit_eq, messageSubject_headed, headStart_plain hplain, units_ofList] at h
  by_cases hline : '\n' ∈ commitHeader commit
  · rw [if_pos hline] at h
    obtain ⟨rest, hrest, hclose⟩ := header_line hplain hline
    have heq := hrest.symm.trans h.eq
    rw [hhead] at heq
    obtain ⟨_, hopen, htail⟩ := run_unique heq hword h.type_word (by decide) hx
    rw [← hopen, ← htail] at hhead
    cases name with
    | none =>
      cases mark with
      | true => cases hhead
      | false =>
        cases spaces with
        | nil => cases hhead
        | cons c spaces =>
          have hc : c = 40 := (List.cons.inj hhead).1
          exact absurd (h.spaces c List.mem_cons_self) (by rw [hc]; decide)
    | some n =>
      have hrest : n ++ [41] ++ (markUnits mark ++ spaces) ++ 58 :: space :: description = rest := (List.cons.inj hhead).2
      exact absurd (hrest ▸ by simp) hclose
  · rw [if_neg hline, List.flatMap_append, List.flatMap_cons, commitHeader_units] at h
    have hname : ∀ n ∈ commit.scopeName.map units, n ≠ [] ∧ ∀ c ∈ n, (c != 41) = true := by
      intro n hn
      obtain ⟨scope, hscope, rfl⟩ := Option.map_eq_some_iff.mp hn
      obtain ⟨hmem, hne⟩ := Option.filter_eq_some_iff.mp hscope
      exact ⟨units_ne_nil (by simpa using hne), units_no_close (hplain.2 scope hmem)⟩
    have hmiddle : Middle (scopeUnits (commit.scopeName.map units) ++ (markUnits commit.isBreaking ++ [])) := by
      refine ⟨_, _, [], rfl, ?_, ?_, fun c hc => (by cases hc)⟩
      · cases hscope : commit.scopeName.map units with
        | none => exact .inl rfl
        | some n => exact .inr ⟨n, (hname n hscope).1, (hname n hscope).2, rfl⟩
      · cases commit.isBreaking with
        | false => exact .inl rfl
        | true => exact .inr rfl
    have hsubject : units commit.type ++ (scopeUnits (commit.scopeName.map units) ++ markUnits commit.isBreaking) ++
          (codeUnits ':' ++ (subjectTail (commitText commit)).flatMap codeUnits) =
        units commit.type ++ (scopeUnits (commit.scopeName.map units) ++ (markUnits commit.isBreaking ++ []) ++
          58 :: (subjectTail (commitText commit)).flatMap codeUnits) := by
      rw [List.append_nil, List.append_assoc]
      rfl
    rw [hsubject] at h
    have heq := h.eq
    obtain ⟨y, tail', hhead', hy⟩ := @Middle.head _ ((subjectTail (commitText commit)).flatMap codeUnits) hmiddle
    have hruns := heq
    rw [hhead, hhead'] at hruns
    obtain ⟨htype, _, _⟩ := run_unique hruns hword h.type_word hy hx
    rw [htype] at heq
    obtain ⟨_, htail⟩ := middle_unique hmiddle h.form.middle (List.append_cancel_left heq)
    rw [htail] at h
    have hown : SubjectParts _ (units commit.type) (commit.scopeName.map units) commit.isBreaking [] space description :=
      ⟨rfl, htype ▸ h.type_ne, hword, hname, fun c hc => (by cases hc), h.space,
        h.description_ne, h.description_line⟩
    obtain ⟨hsame, hscope, hmark, _⟩ := h.unique hown
    exact ⟨hsame, hscope, hmark⟩

/-- When a valid message says what the plan says. -/
theorem says_plan_iff (commit : CommitMessage) (h : validateCommitMessage (formatConventionalCommit commit) = []) :
    SaysPlan commit ↔ PlainFields commit := by
  obtain ⟨_, parsedType, parsedDescription, hparse, _⟩ := validateCommitMessage_eq_nil.mp h
  obtain ⟨type, name, mark, spaces, space, description, hparts, _, _⟩ := parts_of_parseSubject hparse
  unfold SaysPlan
  rw [matchSubject_eq hparts, Option.some.injEq, SubjectMatch.mk.injEq, Option.some.injEq]
  constructor
  · intro hread
    exact plain_of_read hparts.type_word (fun n hn => (hparts.name n hn).2) hread.1 hread.2.1
  · intro hplain
    obtain ⟨htype, hname, hmark⟩ := read_of_plain hplain hparts
    have hscope : (commit.scopeName.map units).map stringOfUnits = commit.scopeName := by
      rw [Option.map_map]
      cases commit.scopeName with
      | none => rfl
      | some scope => exact congrArg some (stringOfUnits_units scope)
    exact ⟨by rw [htype, stringOfUnits_units], by rw [hname, hscope], hmark⟩

def plainCommit : CommitMessage := ⟨"feat", some "core", "add the scanner", none, true⟩

theorem plainCommit_said : SaysPlan plainCommit := by
  have hvalid : validateCommitMessage (formatConventionalCommit plainCommit) = [] := by decide +kernel
  have hword : (plainCommit.type.toList.all fun c => isWord c.toNat) = true := by decide +kernel
  refine (says_plan_iff plainCommit hvalid).mpr ⟨List.all_eq_true.mp hword, fun scope hscope => ?_⟩
  cases hscope
  decide

/-- A type with a scope in it makes a valid message of another type and scope. -/
theorem scope_in_type :
    validateCommitMessage (formatConventionalCommit ⟨"feat(core)", none, "add the scanner", none, false⟩) = [] ∧
      matchSubject (messageSubject (formatConventionalCommit ⟨"feat(core)", none, "add the scanner", none, false⟩)) =
        some ⟨some "feat", some "core", false⟩ ∧
      ¬SaysPlan ⟨"feat(core)", none, "add the scanner", none, false⟩ := by
  have hmatch : matchSubject (messageSubject (formatConventionalCommit ⟨"feat(core)", none, "add the scanner", none, false⟩)) =
      some ⟨some "feat", some "core", false⟩ := by decide +kernel
  refine ⟨by decide +kernel, hmatch, fun hsays => ?_⟩
  rw [SaysPlan, hmatch] at hsays
  exact absurd hsays (by decide)

end GitCommitsPush.Publication
