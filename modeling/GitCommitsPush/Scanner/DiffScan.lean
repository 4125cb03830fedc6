/-
  GitCommitsPush.Scanner.DiffScan — the scan against the patches a diff was rendered from.

  `due` is what the patches should be reported as: each added line by its own content and
  the path of its own file. `scanDiff` recovers it line by line as long as the path it
  carries is the file's (`AgreeFrom`), and `scanDiff_due_iff` says exactly when that is:
  an added line that starts with `++ ` is taken for a header, so its content is not
  scanned and the lines after it go by the path it seems to name; and a quoted name, or
  one that ends in a blank, is not read back from its own header.
-/

import GitCommitsPush.Scanner.SecretScanner

namespace GitCommitsPush.Scanner

open GitCommitsPush.Lib.JsText

/-! ## What should be reported -/

/-- What an added line of a file is to be reported as. -/
def dueFinding (path : Text) (lineNumber : Nat) (content : Text) : Option Finding :=
  if isEnvExamplePath (some path) = true ∨ exempt content = true then none
  else (firstPattern content).map fun name =>
    { name
      line := trim content
      lineNumber
      filePath := some path
      reason := if isNonProductionPath (some path) = true then some "non-production path" else none }

def dueAt (lineNumber : Nat) (tag : Option (Text × Text)) : Option Finding :=
  tag.bind fun added => dueFinding added.1 lineNumber added.2

def dueFrom (i : Nat) : List TaggedLine → ScanResult
  | [] => ⟨[], []⟩
  | t :: ts => report (dueAt i t.2) (dueFrom (i + 1) ts)

def due (patches : List FilePatch) : ScanResult := dueFrom 1 (tagged patches)

/-! ## One line -/

def nextPath (currentFilePath : Option Text) (line : Text) : Option Text :=
  if isPrefix "diff --git " line then parseDiffGitPath line
  else if isPrefix "+++ " line then parseAddedFilePath line
  else currentFilePath

def lineFinding (currentFilePath : Option Text) (i : Nat) (line : Text) : Option Finding :=
  if isPrefix "diff --git " line || isPrefix "+++ " line then none
  else if isPrefix "+" line then scanAdded currentFilePath i (line.drop 1)
  else none

theorem scanLines_cons (P : Option Text) (i : Nat) (line : Text) (lines : List Text) :
    scanLines P i (line :: lines) = report (lineFinding P i line) (scanLines (nextPath P line) (i + 1) lines) := by
  unfold lineFinding nextPath
  rw [scanLines]
  by_cases h1 : isPrefix "diff --git " line = true
  · simp [h1, report]
  by_cases h2 : isPrefix "+++ " line = true
  · simp [h1, h2, report]
  by_cases h3 : isPrefix "+" line = true <;> simp [h1, h2, h3, report]

theorem lineNumber_scanAdded {P : Option Text} {i : Nat} {content : Text} {f : Finding}
    (h : scanAdded P i content = some f) : f.lineNumber = i := by
  unfold scanAdded at h
  split at h
  · cases h
  split at h
  · cases h
  · obtain ⟨name, -, rfl⟩ := Option.map_eq_some_iff.mp h
    rfl

theorem lineNumber_lineFinding {P : Option Text} {i : Nat} {line : Text} {f : Finding}
    (h : lineFinding P i line = some f) : f.lineNumber = i := by
  unfold lineFinding at h
  split at h
  · cases h
  split at h
  · exact lineNumber_scanAdded h
  · cases h

theorem lineNumber_dueAt {i : Nat} {tag : Option (Text × Text)} {f : Finding} (h : dueAt i tag = some f) :
    f.lineNumber = i := by
  obtain ⟨added, -, h⟩ := Option.bind_eq_some_iff.mp h
  unfold dueFinding at h
  split at h
  · cases h
  · obtain ⟨name, -, rfl⟩ := Option.map_eq_some_iff.mp h
    rfl

/-! ## A result determines the report of each line -/

/-- Every finding of the result is of a line from number `i` on. -/
def From (i : Nat) (r : ScanResult) : Prop := ∀ f ∈ r.findings ++ r.warnings, i ≤ f.lineNumber

theorem From.report {i : Nat} {found : Option Finding} {rest : ScanResult} (hf : ∀ f, found = some f → f.lineNumber = i)
    (h : From (i + 1) rest) : From i (report found rest) := by
  intro g hg
  cases found with
  | none => exact Nat.le_of_succ_le (h g hg)
  | some f =>
    have hf := hf f rfl
    simp only [Scanner.report] at hg
    split at hg <;> simp only [List.mem_append, List.mem_cons] at hg
    · rcases hg with hg | rfl | hg
      · exact Nat.le_of_succ_le (h g (List.mem_append_left _ hg))
      · omega
      · exact Nat.le_of_succ_le (h g (List.mem_append_right _ hg))
    · rcases hg with (rfl | hg) | hg
      · omega
      · exact Nat.le_of_succ_le (h g (List.mem_append_left _ hg))
      · exact Nat.le_of_succ_le (h g (List.mem_append_right _ hg))

theorem from_scanLines (P : Option Text) (i : Nat) (lines : List Text) : From i (scanLines P i lines) := by
  induction lines generalizing P i with
  | nil => intro f hf; cases hf
  | cons line lines ih =>
    rw [scanLines_cons]
    exact From.report (fun f h => lineNumber_lineFinding h) (ih _ _)

theorem from_dueFrom (i : Nat) (ts : List TaggedLine) : From i (dueFrom i ts) := by
  induction ts generalizing i with
  | nil => intro f hf; cases hf
  | cons t ts ih => exact From.report (fun f h => lineNumber_dueAt h) (ih _)

/-- The findings of line `i`. -/
def ofLine (i : Nat) (r : ScanResult) : List Finding := (r.findings ++ r.warnings).filter (·.lineNumber == i)

def otherLines (i : Nat) (r : ScanResult) : ScanResult :=
  ⟨r.findings.filter (·.lineNumber != i), r.warnings.filter (·.lineNumber != i)⟩

section Report

variable {i : Nat} {found : Option Finding} {rest : ScanResult}

theorem From.ofLine (h : From (i + 1) rest) : ofLine i rest = [] := by
  unfold Scanner.ofLine
  apply List.filter_eq_nil_iff.mpr
  intro f hf
  have := h f hf
  simp only [beq_iff_eq]
  omega

theorem From.otherLines (h : From (i + 1) rest) : otherLines i rest = rest := by
  have hkeep : ∀ fs : List Finding, (∀ f ∈ fs, i + 1 ≤ f.lineNumber) → fs.filter (·.lineNumber != i) = fs := by
    intro fs hfs
    apply List.filter_eq_self.mpr
    intro f hf
    have := hfs f hf
    simp only [bne_iff_ne]
    omega
  unfold Scanner.otherLines
  rw [hkeep _ fun f hf => h f (List.mem_append_left _ hf), hkeep _ fun f hf => h f (List.mem_append_right _ hf)]

theorem ofLine_report (hf : ∀ f, found = some f → f.lineNumber = i) (h : From (i + 1) rest) :
    ofLine i (report found rest) = found.toList := by
  have hnil := h.ofLine
  cases found with
  | none => exact hnil
  | some f =>
    have hf := hf f rfl
    simp only [ofLine, List.filter_append, List.append_eq_nil_iff] at hnil
    simp only [Scanner.report]
    split <;> simp [ofLine, hf, hnil.1, hnil.2]

theorem otherLines_report (hf : ∀ f, found = some f → f.lineNumber = i) (h : From (i + 1) rest) :
    otherLines i (report found rest) = rest := by
  have hself := h.otherLines
  cases found with
  | none => exact hself
  | some f =>
    have hf := hf f rfl
    simp only [otherLines] at hself
    simp only [Scanner.report]
    split <;> simpa [otherLines, hf] using hself

/-- A result determines what its first line is reported as, and the result of the others. -/
theorem report_inj {found' : Option Finding} {rest' : ScanResult} (hf : ∀ f, found = some f → f.lineNumber = i)
    (hf' : ∀ f, found' = some f → f.lineNumber = i) (h : From (i + 1) rest) (h' : From (i + 1) rest') :
    report found rest = report found' rest' ↔ found = found' ∧ rest = rest' := by
  constructor
  · intro heq
    have hline := congrArg (ofLine i) heq
    have hrest := congrArg (otherLines i) heq
    rw [ofLine_report hf h, ofLine_report hf' h'] at hline
    rw [otherLines_report hf h, otherLines_report hf' h'] at hrest
    refine ⟨?_, hrest⟩
    cases found <;> cases found' <;> simp_all
  · intro heq
    rw [heq.1, heq.2]

end Report

/-! ## Where the scan agrees with the patches -/

/-- From line `i` on, carrying path `P`, every line is reported as it should be. -/
def AgreeFrom (P : Option Text) (i : Nat) : List TaggedLine → Prop
  | [] => True
  | t :: ts => lineFinding P i t.1 = dueAt i t.2 ∧ AgreeFrom (nextPath P t.1) (i + 1) ts

theorem scanLines_eq_due_iff (P : Option Text) (i : Nat) (ts : List TaggedLine) :
    scanLines P i (ts.map Prod.fst) = dueFrom i ts ↔ AgreeFrom P i ts := by
  induction ts generalizing P i with
  | nil => exact ⟨fun _ => True.intro, fun _ => rfl⟩
  | cons t ts ih =>
    rw [List.map_cons, scanLines_cons, dueFrom, report_inj (fun f h => lineNumber_lineFinding h)
      (fun f h => lineNumber_dueAt h) (from_scanLines _ _ _) (from_dueFrom _ _), ih]
    rfl

/-- The content fits a pattern and nothing in it exempts its line. -/
def Suspicious (content : Text) : Prop := exempt content = false ∧ (firstPattern content).isSome = true

/-- Along the lines of a hunk of the file at `path`, with `P` the path the scan carries. -/
def HunkFaithful (path : Text) : Option Text → List HunkLine → Prop
  | _, [] => True
  | P, .added content :: ls =>
    if isPrefix "++ " content.val = true then
      (Suspicious content.val → isEnvExamplePath (some path) = true) ∧
        HunkFaithful path (parseAddedFilePath ('+' :: content)) ls
    else
      (Suspicious content.val → P = some path ∨ (isEnvExamplePath P = true ∧ isEnvExamplePath (some path) = true)) ∧
        HunkFaithful path P ls
  | P, _ :: ls => HunkFaithful path P ls

/-- Every suspicious line of the file is scanned, with the file's own path. -/
def FilePatch.Faithful (p : FilePatch) : Prop :=
  HunkFaithful p.newPath (parseAddedFilePath p.newHeader) (p.hunks.flatMap (·.lines))

theorem dueFinding_eq_none {path content : Text} {i : Nat} :
    dueFinding path i content = none ↔ (Suspicious content → isEnvExamplePath (some path) = true) := by
  unfold dueFinding Suspicious
  cases isEnvExamplePath (some path) <;> cases exempt content <;> cases firstPattern content <;> simp

theorem scanAdded_eq_due {P : Option Text} {path content : Text} {i : Nat} (hne : path ≠ []) :
    scanAdded P i content = dueFinding path i content ↔
      (Suspicious content → P = some path ∨ (isEnvExamplePath P = true ∧ isEnvExamplePath (some path) = true)) := by
  unfold scanAdded dueFinding Suspicious
  cases exempt content with
  | true => cases isEnvExamplePath P <;> simp
  | false =>
    cases firstPattern content with
    | none => cases isEnvExamplePath P <;> cases isEnvExamplePath (some path) <;> simp
    | some name =>
      simp only [Option.isSome_some, and_self, forall_const, Option.map_some, Bool.false_eq_true, or_false, if_false]
      by_cases hP : isEnvExamplePath P = true <;> by_cases hp : isEnvExamplePath (some path) = true
      · simp [hP, hp]
      · simp only [hP, hp, if_true, if_false, reduceCtorEq, false_iff, and_false, or_false]
        intro h
        rw [h] at hP
        exact hp hP
      · simp only [hP, hp, if_true, if_false, reduceCtorEq, false_iff, false_and, or_false]
        intro h
        rw [h] at hP
        exact hP hp
      · rw [if_neg hP, if_neg hp]
        constructor
        · intro h
          have hpath := congrArg Finding.filePath (Option.some.inj h)
          exact .inl (Option.filter_eq_some_iff.mp hpath).1
        · intro h
          rcases h with h | h
          · subst h
            simp [buildFinding, hne]
          · exact absurd h.1 hP

/-! ## A patch -/

section Inert

/-- Neither a header nor an added line. -/
def inert (line : Text) : Bool := !isPrefix "diff --git " line && !isPrefix "+" line

theorem isPrefix_plus {line : Text} (h : isPrefix "+" line = false) : isPrefix "+++ " line = false := by
  cases line with
  | nil => rfl
  | cons c line =>
    have hc : ('+' == c && List.isPrefixOf [] line) = false := h
    have hc : ('+' == c) = false := by simpa using hc
    show ('+' == c && List.isPrefixOf ['+', '+', ' '] line) = false
    rw [hc, Bool.false_and]

theorem inert_of_head {x y z : Char} {line : Text} (hx : x ≠ '+') (h : ¬ (x = 'd' ∧ y = 'i' ∧ z = 'f')) :
    inert (x :: y :: z :: line) = true := by
  have hplus : ('+' == x) = false := by simpa using fun h => hx h.symm
  show (!('d' == x && ('i' == y && ('f' == z && List.isPrefixOf "f --git ".toList line))) && !('+' == x && true)) = true
  have hdif : ('d' == x && ('i' == y && ('f' == z && List.isPrefixOf "f --git ".toList line))) = false := by
    by_cases hd : 'd' = x <;> by_cases hi : 'i' = y <;> by_cases hf : 'f' = z
    · exact absurd ⟨hd.symm, hi.symm, hf.symm⟩ h
    all_goals simp [hd, hi, hf]
  rw [hdif, hplus]
  rfl

theorem inert_cons {c : Char} (hd : c ≠ 'd') (hp : c ≠ '+') (line : Text) : inert (c :: line) = true := by
  have hdiff : ('d' == c) = false := by simpa using fun h => hd h.symm
  have hplus : ('+' == c) = false := by simpa using fun h => hp h.symm
  show (!('d' == c && List.isPrefixOf "iff --git ".toList line) && !('+' == c && true)) = true
  rw [hdiff, hplus]
  rfl

theorem inert_hunkLine {l : HunkLine} (h : l.addedContent = none) : inert l.render = true := by
  cases l with
  | context c | removed c => exact inert_cons (by decide) (by decide) _
  | noNewline => decide
  | added c => cases h

theorem inert_extended (k : ExtendedKeyword) (v : Text) : inert (k.text.toList ++ v) = true := by
  cases k with
  | dissimilarityIndex => exact inert_of_head (by decide) (by decide)
  | deletedFileMode => exact inert_of_head (by decide) (by decide)
  | _ => exact inert_cons (by decide) (by decide) _

theorem agreeFrom_inert {line : Text} (h : inert line = true) (P : Option Text) (i : Nat) (ts : List TaggedLine) :
    AgreeFrom P i ((line, none) :: ts) ↔ AgreeFrom P (i + 1) ts := by
  simp only [inert, Bool.and_eq_true, Bool.not_eq_true'] at h
  have hplus := isPrefix_plus h.2
  have hfinding : lineFinding P i line = none := by simp [lineFinding, h.1, h.2, hplus]
  have hnext : nextPath P line = P := by simp [nextPath, h.1, hplus]
  simp only [AgreeFrom, hfinding, hnext, dueAt, Option.bind_none, true_and]

/-- An added line that is not taken for a header. -/
theorem agreeFrom_added {P : Option Text} {i : Nat} {content path : Text} {ts : List TaggedLine}
    (h : isPrefix "++ " content = false) : AgreeFrom P i (('+' :: content, some (path, content)) :: ts) ↔
      scanAdded P i content = dueFinding path i content ∧ AgreeFrom P (i + 1) ts := by
  have hplus : isPrefix "+++ " ('+' :: content) = false := h
  have hdiff : isPrefix "diff --git " ('+' :: content) = false := rfl
  have hadded : isPrefix "+" ('+' :: content) = true := by cases content <;> rfl
  simp [AgreeFrom, lineFinding, nextPath, dueAt, hplus, hdiff, hadded]

/-- An added line that is taken for a header. -/
theorem agreeFrom_header {P : Option Text} {i : Nat} {content path : Text} {ts : List TaggedLine}
    (h : isPrefix "++ " content = true) : AgreeFrom P i (('+' :: content, some (path, content)) :: ts) ↔
      dueFinding path i content = none ∧ AgreeFrom (parseAddedFilePath ('+' :: content)) (i + 1) ts := by
  have hplus : isPrefix "+++ " ('+' :: content) = true := h
  have hdiff : isPrefix "diff --git " ('+' :: content) = false := rfl
  simp [AgreeFrom, lineFinding, nextPath, dueAt, hplus, hdiff, eq_comm]

variable {p : FilePatch} {R : Prop}

/-- Lines of a hunk, before a tail that agrees as `more` and `R` say. -/
theorem agreeFrom_lines {tail : List TaggedLine} {more : List HunkLine}
    (htail : ∀ P i, AgreeFrom P i tail ↔ HunkFaithful p.newPath P more ∧ R) (ls : List HunkLine) (P : Option Text) (i : Nat) :
    AgreeFrom P i (ls.map p.lineTagged ++ tail) ↔ HunkFaithful p.newPath P (ls ++ more) ∧ R := by
  induction ls generalizing P i with
  | nil => exact htail P i
  | cons l ls ih =>
    cases l with
    | context c | removed c | noNewline => exact (agreeFrom_inert (inert_hunkLine rfl) P i _).trans (ih P (i + 1))
    | added c =>
      show AgreeFrom P i (('+' :: c.val, some (p.newPath, c.val)) :: (ls.map p.lineTagged ++ tail)) ↔ _
      rw [List.cons_append, HunkFaithful]
      by_cases hplus : isPrefix "++ " c.val = true
      · rw [agreeFrom_header hplus, if_pos hplus, dueFinding_eq_none, ih, and_assoc]
      · rw [agreeFrom_added (Bool.eq_false_iff.mpr hplus), if_neg hplus, scanAdded_eq_due p.newPath_ne, ih, and_assoc]

theorem agreeFrom_hunks {rest : List TaggedLine} (hrest : ∀ P i, AgreeFrom P i rest ↔ R) (hs : List Hunk)
    (P : Option Text) (i : Nat) :
    AgreeFrom P i (hs.flatMap p.hunkTagged ++ rest) ↔ HunkFaithful p.newPath P (hs.flatMap (·.lines)) ∧ R := by
  induction hs generalizing P i with
  | nil => simpa [HunkFaithful] using hrest P i
  | cons h hs ih =>
    rw [List.flatMap_cons, List.flatMap_cons, List.append_assoc]
    exact (agreeFrom_inert (inert_cons (by decide) (by decide) _) P i _).trans (agreeFrom_lines ih h.lines P (i + 1))

theorem agreeFrom_extended {rest : List TaggedLine} (es : List (ExtendedKeyword × OneLine)) (P : Option Text) (i : Nat) :
    AgreeFrom P i (es.map (fun e => (e.1.text.toList ++ e.2.val, none)) ++ rest) ↔ AgreeFrom P (i + es.length) rest := by
  induction es generalizing P i with
  | nil => rfl
  | cons e es ih =>
    rw [List.map_cons, List.cons_append, agreeFrom_inert (inert_extended e.1 e.2.val), ih, List.length_cons]
    rw [Nat.add_assoc, Nat.add_comm 1]

theorem agreeFrom_patch {rest : List TaggedLine} (hrest : ∀ P i, AgreeFrom P i rest ↔ R) (P : Option Text) (i : Nat) :
    AgreeFrom P i (p.tagged ++ rest) ↔ p.Faithful ∧ R := by
  have hdiff : ∀ (line : Text) (ts : List TaggedLine), isPrefix "diff --git " line = true →
      (AgreeFrom P i ((line, none) :: ts) ↔ AgreeFrom (parseDiffGitPath line) (i + 1) ts) := by
    intro line ts h
    simp [AgreeFrom, lineFinding, nextPath, dueAt, h]
  have hheader : ∀ (P : Option Text) (i : Nat) (ts : List TaggedLine),
      (AgreeFrom P i ((p.newHeader, none) :: ts) ↔ AgreeFrom (parseAddedFilePath p.newHeader) (i + 1) ts) := by
    intro P i ts
    have h1 : isPrefix "diff --git " p.newHeader = false := rfl
    have h2 : isPrefix "+++ " p.newHeader = true := rfl
    simp [AgreeFrom, lineFinding, nextPath, dueAt, h1, h2]
  rw [FilePatch.tagged, List.cons_append, List.cons_append, hdiff _ _ rfl, List.append_assoc, agreeFrom_extended]
  unfold FilePatch.Faithful
  cases hs : p.hunks with
  | nil => simpa [HunkFaithful] using hrest _ _
  | cons h hs' =>
    simp only [List.isEmpty_cons, Bool.false_eq_true, if_false, List.cons_append]
    have hold : inert p.oldHeader = true := inert_cons (c := '-') (by decide) (by decide) _
    rw [agreeFrom_inert hold, hheader]
    exact agreeFrom_hunks hrest (h :: hs') _ _

end Inert

/-! ## Headers that are read back -/

theorem trimEnd_snoc (s : Text) (c : Char) : trimEnd (s ++ [c]) = if isSpace c = true then trimEnd s else s ++ [c] := by
  unfold trimEnd
  rw [List.reverse_append, List.reverse_singleton, List.singleton_append, List.dropWhile_cons]
  split
  · rfl
  · simp

/-- A name Git does not quote and that does not end in a blank is read back from its header. -/
theorem parse_newHeader {p : FilePatch} (hkept : p.deleted = false)
    (hplain : (("b/".toList ++ p.newPath).flatMap utf8Bytes).any needsQuote = false)
    (hlast : ∀ c, p.newPath.getLast? = some c → isSpace c = false) :
    parseAddedFilePath p.newHeader = some p.newPath := by
  obtain ⟨init, c, hpath⟩ : ∃ init c, p.newPath = init ++ [c] :=
    ⟨p.newPath.dropLast, p.newPath.getLast p.newPath_ne, (List.dropLast_concat_getLast p.newPath_ne).symm⟩
  have hc : isSpace c = false := hlast c (by rw [hpath, List.getLast?_concat])
  have hlabel : label "b/" p.newPath = "b/".toList ++ p.newPath := by
    simp only [label, hplain, Bool.false_eq_true, if_false]
  have htrim : trim (headerName "b/" p.newPath) = "b/".toList ++ p.newPath := by
    have hend : trimEnd ("b/".toList ++ p.newPath) = "b/".toList ++ p.newPath := by
      rw [hpath, ← List.append_assoc, trimEnd_snoc, hc]
      rfl
    have hstart : ∀ s : Text, trimStart ("b/".toList ++ s) = "b/".toList ++ s := fun s =>
      List.dropWhile_cons_of_neg (by decide)
    unfold headerName
    rw [hlabel, List.append_assoc, trim, hstart, ← List.append_assoc]
    split
    · rw [trimEnd_snoc, if_pos (by decide), hend]
    · rw [List.append_nil, hend]
  have hheader : p.newHeader = "+++ ".toList ++ headerName "b/" p.newPath := by
    rw [FilePatch.newHeader, hkept]
    rfl
  have hdrop : ("+++ ".toList ++ headerName "b/" p.newPath).drop 4 = headerName "b/" p.newPath := rfl
  unfold parseAddedFilePath
  have hprefix : isPrefix "+++ " ("+++ ".toList ++ headerName "b/" p.newPath) = true := rfl
  rw [hheader, if_pos hprefix, hdrop, htrim]
  have hnull : "b/".toList ++ p.newPath ≠ "/dev/null".toList := by
    intro h
    cases (List.cons.inj h).1
  have hb : isPrefix "b/" ("b/".toList ++ p.newPath) = true := by
    show List.isPrefixOf "b/".toList ("b/".toList ++ p.newPath) = true
    simp
  simp only [if_neg hnull, hb, if_true]
  rfl

/-! ## The diff -/

/-- A blank last line, as a text that ends in a newline splits. -/
theorem scanLines_append_nil (P : Option Text) (i : Nat) (lines : List Text) :
    scanLines P i (lines ++ [[]]) = scanLines P i lines := by
  induction lines generalizing P i with
  | nil => rfl
  | cons line lines ih => rw [List.cons_append, scanLines_cons, scanLines_cons, ih]

theorem trim_ne_nil {c : Char} {s : Text} (h : isSpace c = false) : trim (c :: s) ≠ [] := by
  intro h0
  have hstart : trimStart (c :: s) = c :: s := by simp [trimStart, h]
  rw [trim, hstart, trimEnd, List.reverse_eq_nil_iff] at h0
  have hall := List.all_takeWhile (p := isSpace) (l := (c :: s).reverse)
  have hwhole := List.takeWhile_append_dropWhile (p := isSpace) (l := (c :: s).reverse)
  rw [h0, List.append_nil] at hwhole
  rw [hwhole, List.all_reverse, List.all_cons, h] at hall
  cases hall

theorem scanDiff_render (patches : List FilePatch) :
    scanDiff (render patches) = scanLines none 1 ((tagged patches).map Prod.fst) := by
  unfold scanDiff
  by_cases hblank : trim (render patches) = []
  · have hnil : patches = [] := by
      cases patches with
      | nil => rfl
      | cons p ps => exact absurd hblank (trim_ne_nil (c := 'd') rfl)
    subst hnil
    rw [if_pos hblank]
    rfl
  · rw [if_neg hblank, splitOn_render, scanLines_append_nil]

/-- The scan of a diff reports exactly the suspicious added lines, each by the path of its
    own file, if and only if every patch is faithful. -/
theorem scanDiff_due_iff (patches : List FilePatch) :
    scanDiff (render patches) = due patches ↔ ∀ p ∈ patches, p.Faithful := by
  have hall : ∀ (ps : List FilePatch) (P : Option Text) (i : Nat),
      AgreeFrom P i (tagged ps) ↔ ∀ p ∈ ps, p.Faithful := by
    intro ps
    induction ps with
    | nil => intro P i; simp [tagged, AgreeFrom]
    | cons p ps ih =>
      intro P i
      rw [tagged, List.flatMap_cons, List.forall_mem_cons]
      exact agreeFrom_patch (p := p) ih P i
  rw [scanDiff_render, due, scanLines_eq_due_iff]
  exact hall patches none 1

/-! ## A file that names its own path -/

def configPatch (lines : List HunkLine) : FilePatch where
  oldPath := "src/config.ts".toList
  newPath := "src/config.ts".toList
  created := true
  deleted := false
  extended := []
  hunks := [⟨⟨"-0,0 +1 @@".toList, by decide⟩, lines⟩]
  newPath_ne := by decide
  deleted_adds h := by cases h

/-- The first added line reads as a header, so the key below it goes to the warnings of
    another path instead of to the findings of its own. -/
theorem scanDiff_header_imitation :
    ¬ ∀ patches : List FilePatch, scanDiff (render patches) = due patches := by
  intro h
  have heq := h [configPatch [.added ⟨"++ b/tests/k.ts".toList, by decide⟩, .added ⟨"AKIA1234567890ABCDEF".toList, by decide⟩]]
  have hclean := congrArg ScanResult.clean heq
  revert hclean
  decide +kernel

end GitCommitsPush.Scanner
