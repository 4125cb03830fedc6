/-
  GitCommitsPush.Scanner.UnifiedDiff — file patches as Git renders them.

  A patch is a `diff --git` line, extended headers and, when it has hunks, the `---` and
  `+++` headers and the hunks. Git quotes a name that holds a control character, a
  double quote, a backslash or a byte above ASCII, prefix included, and ends a header
  with a tab when the name has a blank.

  `tagged` is the rendered lines, each added line with its content and the path of its
  file: what a scan of the text should recover.
-/

import GitCommitsPush.Lib.JsText

namespace GitCommitsPush.Scanner

open GitCommitsPush.Lib.JsText

abbrev Text := List Char

/-- Text on one line. -/
abbrev OneLine := { s : Text // '\n' ∉ s }

/-! ## Names -/

/-- Git quotes a name with such a byte. -/
def needsQuote (b : Nat) : Bool := b < 0x20 || 0x7F ≤ b || b == 0x22 || b == 0x5C

def octalDigit (n : Nat) : Char := "01234567".toList.getD (n % 8) '0'

/-- One byte of a quoted name. -/
def quoteByte (b : Nat) : Text :=
  if b = 0x07 then ['\\', 'a']
  else if b = 0x08 then ['\\', 'b']
  else if b = 0x09 then ['\\', 't']
  else if b = 0x0A then ['\\', 'n']
  else if b = 0x0B then ['\\', 'v']
  else if b = 0x0C then ['\\', 'f']
  else if b = 0x0D then ['\\', 'r']
  else if b = 0x22 then ['\\', '"']
  else if b = 0x5C then ['\\', '\\']
  else if needsQuote b = true then ['\\', octalDigit (b / 64), octalDigit (b / 8), octalDigit b]
  else [Char.ofNat b]

/-- A name with its prefix, as a header shows it. -/
def label (side : String) (path : Text) : Text :=
  let name := side.toList ++ path
  let bytes := name.flatMap utf8Bytes
  if bytes.any needsQuote = true then '"' :: bytes.flatMap quoteByte ++ ['"'] else name

/-- The name on a `---` or `+++` line. -/
def headerName (side : String) (path : Text) : Text :=
  label side path ++ (if ' ' ∈ label side path then ['\t'] else [])

/-! ## Patches -/

inductive HunkLine where
  | context (content : OneLine)
  | removed (content : OneLine)
  | added (content : OneLine)
  /-- `\ No newline at end of file`. -/
  | noNewline

/-- A hunk: the rest of its `@@ ` line and its lines. -/
structure Hunk where
  range : OneLine
  lines : List HunkLine

inductive ExtendedKeyword where
  | oldMode | newMode | deletedFileMode | newFileMode | copyFrom | copyTo | renameFrom | renameTo | similarityIndex
  | dissimilarityIndex | index

def ExtendedKeyword.text : ExtendedKeyword → String
  | oldMode => "old mode "
  | newMode => "new mode "
  | deletedFileMode => "deleted file mode "
  | newFileMode => "new file mode "
  | copyFrom => "copy from "
  | copyTo => "copy to "
  | renameFrom => "rename from "
  | renameTo => "rename to "
  | similarityIndex => "similarity index "
  | dissimilarityIndex => "dissimilarity index "
  | index => "index "

structure FilePatch where
  oldPath : Text
  newPath : Text
  created : Bool
  deleted : Bool
  extended : List (ExtendedKeyword × OneLine)
  hunks : List Hunk
  newPath_ne : newPath ≠ []
  /-- A deletion adds no line. -/
  deleted_adds : deleted = true → ∀ h ∈ hunks, ∀ l ∈ h.lines, ∀ content, l ≠ .added content

/-! ## Rendering -/

def noNewlineMarker : Text := "\\ No newline at end of file".toList

def HunkLine.render : HunkLine → Text
  | context content => ' ' :: content
  | removed content => '-' :: content
  | added content => '+' :: content
  | noNewline => noNewlineMarker

def HunkLine.addedContent : HunkLine → Option Text
  | added content => some content
  | _ => none

/-- A rendered line; for an added line, the path of its file and its content. -/
abbrev TaggedLine := Text × Option (Text × Text)

namespace FilePatch

variable (p : FilePatch)

def diffGitLine : Text := "diff --git ".toList ++ label "a/" p.oldPath ++ ' ' :: label "b/" p.newPath

def oldHeader : Text := "--- ".toList ++ if p.created then "/dev/null".toList else headerName "a/" p.oldPath

def newHeader : Text := "+++ ".toList ++ if p.deleted then "/dev/null".toList else headerName "b/" p.newPath

def lineTagged (l : HunkLine) : TaggedLine := (l.render, l.addedContent.map (p.newPath, ·))

def hunkTagged (h : Hunk) : List TaggedLine := ("@@ ".toList ++ h.range.val, none) :: h.lines.map p.lineTagged

def tagged : List TaggedLine :=
  (p.diffGitLine, none) :: p.extended.map (fun e => (e.1.text.toList ++ e.2.val, none)) ++
    if p.hunks.isEmpty then [] else (p.oldHeader, none) :: (p.newHeader, none) :: p.hunks.flatMap p.hunkTagged

end FilePatch

def tagged (patches : List FilePatch) : List TaggedLine := patches.flatMap FilePatch.tagged

/-- The text of the diff. -/
def render (patches : List FilePatch) : Text := ((tagged patches).map Prod.fst).flatMap (· ++ ['\n'])

/-! ## Every rendered line is one line -/

theorem octalDigit_ne_newline (n : Nat) : octalDigit n ≠ '\n' := by
  have hall : ∀ m : Nat, m < 8 → "01234567".toList.getD m '0' ≠ '\n' := by decide
  exact hall (n % 8) (Nat.mod_lt _ (by decide))

theorem newline_not_mem_quoteByte (b : Nat) : '\n' ∉ quoteByte b := by
  by_cases hb : b < 0x7F
  · have hall : ∀ n : Nat, n < 0x7F → '\n' ∉ quoteByte n := by decide +kernel
    exact hall b hb
  · have hquote : needsQuote b = true := by simp [needsQuote]; omega
    have hoctal : quoteByte b = ['\\', octalDigit (b / 64), octalDigit (b / 8), octalDigit b] := by
      unfold quoteByte
      rw [if_neg (by omega), if_neg (by omega), if_neg (by omega), if_neg (by omega), if_neg (by omega),
        if_neg (by omega), if_neg (by omega), if_neg (by omega), if_neg (by omega), if_pos hquote]
    simpa [hoctal] using ⟨(octalDigit_ne_newline _).symm, (octalDigit_ne_newline _).symm, (octalDigit_ne_newline _).symm⟩

theorem newline_not_mem_label (side : String) (path : Text) : '\n' ∉ label side path := by
  unfold label
  by_cases hq : ((side.toList ++ path).flatMap utf8Bytes).any needsQuote = true
  · simp only [hq, if_true, List.mem_append, List.mem_cons, List.mem_flatMap, not_or, not_exists, not_and]
    refine ⟨⟨by decide, fun b _ => newline_not_mem_quoteByte b⟩, by decide, by simp⟩
  · simp only [hq]
    intro h
    exact hq (List.any_eq_true.mpr ⟨0x0A, List.mem_flatMap.mpr ⟨'\n', h, by decide⟩, by decide⟩)

theorem newline_not_mem_headerName (side : String) (path : Text) : '\n' ∉ headerName side path := by
  unfold headerName
  intro h
  rcases List.mem_append.mp h with h | h
  · exact newline_not_mem_label side path h
  · split at h <;> simp at h

theorem newline_not_mem_header (keyword : String) (hk : '\n' ∉ keyword.toList) (absent : Bool) (side : String) (path : Text) :
    '\n' ∉ keyword.toList ++ if absent = true then "/dev/null".toList else headerName side path := by
  intro h
  rcases List.mem_append.mp h with h | h
  · exact hk h
  · split at h
    · exact absurd h (by decide)
    · exact newline_not_mem_headerName side path h

theorem newline_not_mem_hunkLine (l : HunkLine) : '\n' ∉ l.render := by
  cases l with
  | noNewline => exact fun h => absurd h (by decide +kernel)
  | context c | removed c | added c => exact fun h => (List.mem_cons.mp h).elim (by decide) c.property

theorem newline_not_mem_tagged (p : FilePatch) : ∀ t ∈ p.tagged, '\n' ∉ t.1 := by
  intro t ht
  have hkeyword : ∀ k : ExtendedKeyword, '\n' ∉ k.text.toList := by intro k; cases k <;> decide
  have hcons : ∀ (k : Text) (s : OneLine), '\n' ∉ k → '\n' ∉ k ++ s.val :=
    fun k s hk h => (List.mem_append.mp h).elim hk s.property
  simp only [FilePatch.tagged, List.cons_append, List.mem_cons, List.mem_append, List.mem_map] at ht
  rcases ht with rfl | ⟨e, -, rfl⟩ | ht
  · intro h
    rcases List.mem_append.mp h with h | h
    · rcases List.mem_append.mp h with h | h
      · exact absurd h (by decide)
      · exact newline_not_mem_label _ _ h
    · rcases List.mem_cons.mp h with h | h
      · cases h
      · exact newline_not_mem_label _ _ h
  · exact hcons _ _ (hkeyword e.1)
  · split at ht
    · cases ht
    · simp only [List.mem_cons, List.mem_flatMap] at ht
      rcases ht with rfl | rfl | ⟨h, -, ht⟩
      · exact newline_not_mem_header "--- " (by decide) _ _ _
      · exact newline_not_mem_header "+++ " (by decide) _ _ _
      · simp only [FilePatch.hunkTagged, List.mem_cons, List.mem_map] at ht
        rcases ht with rfl | ⟨l, -, rfl⟩
        · exact hcons _ _ (by decide)
        · exact newline_not_mem_hunkLine l

theorem splitOn_render (patches : List FilePatch) : splitOn '\n' (render patches) = (tagged patches).map Prod.fst ++ [[]] := by
  apply splitOn_ended
  intro l hl
  obtain ⟨t, ht, rfl⟩ := List.mem_map.mp hl
  obtain ⟨p, -, ht⟩ := List.mem_flatMap.mp ht
  exact newline_not_mem_tagged p t ht

end GitCommitsPush.Scanner
