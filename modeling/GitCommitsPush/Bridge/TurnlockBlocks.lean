/-
  GitCommitsPush.Bridge.TurnlockBlocks — the two readers of the orchestrator's output
  (`entrypoints/turnlock-to-llm-bridge.ts`: `extractTurnlockBlocks`, the listener of `main`).

  One takes the lines as they come, the other a whole text. They differ where a block is
  opened again before it ends: `extractTurnlockBlocks` forgets the lines before, `main`
  keeps them. `readers_agree_iff` says for which streams that shows; `restart_shows` is
  one.
-/

import GitCommitsPush.Lib.JsonDocument

namespace GitCommitsPush.Bridge

open GitCommitsPush.Lib.JsText GitCommitsPush.Lib.Regex GitCommitsPush.Lib.JsonDocument GitCommitsPush.Lib.JsonTree

/-! ## The source -/

/-- A text that begins with a quote is the text of a string or of nothing: no number is in it. -/
def parseSerializedValue (val : String) : String :=
  if startsWith val "\"" && endsWith val "\"" then
    match parse (fun _ => none) val with
    | some (.string value) => value
    | _ => String.ofList (val.toList.drop 1).dropLast
  else val

/-- `^manifest: (.*)$`. -/
def MANIFEST_LINE : Re := seqAll [.atStart, lit "manifest: ", .group 1 (.rep anyChar 0 none true), .atEnd]

/-- `^resume_cmd: (.*)$`. -/
def RESUME_LINE : Re := seqAll [.atStart, lit "resume_cmd: ", .group 1 (.rep anyChar 0 none true), .atEnd]

/-- What a line of a block says of a field. -/
def serializedField (pattern : Re) (line : String) : Option String :=
  (exec pattern (units line)).bind fun found =>
    (capture 1 found.2).map fun value => parseSerializedValue (stringOfUnits value)

structure TurnlockBlocks where
  manifestPath : Option String
  resumeCmd : Option String
  deriving DecidableEq, Repr

def TurnlockBlocks.readLine (found : TurnlockBlocks) (bl : String) : TurnlockBlocks :=
  { manifestPath := (serializedField MANIFEST_LINE bl).or found.manifestPath
    resumeCmd := (serializedField RESUME_LINE bl).or found.resumeCmd }

/-- The variables of either reader. -/
structure BlockReader where
  inBlock : Bool
  blockLines : List String
  found : TurnlockBlocks
  deriving DecidableEq, Repr

def BlockReader.start : BlockReader := ⟨false, [], none, none⟩

def extractLine (s : BlockReader) (line : String) : BlockReader :=
  let trimmed := trimString line
  if trimmed = "@@TURNLOCK@@" then { s with inBlock := true, blockLines := [] }
  else if trimmed = "@@END@@" then ⟨false, [], s.blockLines.foldl TurnlockBlocks.readLine s.found⟩
  else if s.inBlock then { s with blockLines := s.blockLines ++ [line] }
  else s

def extractTurnlockBlocks (output : String) : TurnlockBlocks :=
  ((splitString '\n' output).foldl extractLine .start).found

/-- The listener for `line` in `main`: a block opened again keeps the lines it has. -/
def onLine (s : BlockReader) (line : String) : BlockReader :=
  let trimmed := trimString line
  if trimmed = "@@TURNLOCK@@" then { s with inBlock := true }
  else if trimmed = "@@END@@" then ⟨false, [], s.blockLines.foldl TurnlockBlocks.readLine s.found⟩
  else if s.inBlock then { s with blockLines := s.blockLines ++ [line] }
  else s

/-- What `main` has collected when its input closes. -/
def mainBlocks (lines : List String) : TurnlockBlocks := (lines.foldl onLine .start).found

/-! ## Streams -/

/-- The text of the lines, each with its newline. -/
def streamText (lines : List String) : String := String.ofList (lines.flatMap fun line => line.toList ++ ['\n'])

def IsLine (line : String) : Prop := ∀ c ∈ line.toList, isLineTerminator c.toNat = false

def opens (line : String) : Bool := trimString line == "@@TURNLOCK@@"

def ends (line : String) : Bool := trimString line == "@@END@@"

/-- What stands before each end, since the end before it. -/
def chunks : List String → List (List String)
  | [] => []
  | line :: rest =>
    if ends line then [] :: chunks rest
    else match chunks rest with
      | [] => []
      | chunk :: more => (line :: chunk) :: more

/-- The lines of a chunk that are in a block, and whether the block is not opened again after. -/
def blockLines (inBlock : Bool) : List String → List (String × Bool)
  | [] => []
  | line :: rest =>
    if opens line then blockLines true rest
    else if inBlock then (line, !rest.any opens) :: blockLines true rest
    else blockLines false rest

/-- The lines of the blocks that end. -/
def endedLines (lines : List String) : List (String × Bool) := (chunks lines).flatMap (blockLines false)

/-- A line before a restart that is the last to give the field gives what the last line
    that no restart follows in its block gives. -/
def RestartHarmless (pattern : Re) (lines : List String) : Prop :=
  ∀ before line after, endedLines lines = before ++ (line, false) :: after →
    (serializedField pattern line).isSome = true → (∀ other ∈ after, serializedField pattern other.1 = none) →
    ((before.filter (·.2)).filterMap fun other => serializedField pattern other.1).getLast? =
      serializedField pattern line

/-! ## What each reader reads -/

theorem ends_iff {line : String} : ends line = true ↔ trimString line = "@@END@@" := by simp [ends]

theorem opens_iff {line : String} : opens line = true ↔ trimString line = "@@TURNLOCK@@" := by simp [opens]

/-- Both readers read the same lines of a block at its end. -/
theorem step_ends {line : String} (s : BlockReader) (h : ends line = true) :
    onLine s line = ⟨false, [], s.blockLines.foldl TurnlockBlocks.readLine s.found⟩ ∧
      extractLine s line = ⟨false, [], s.blockLines.foldl TurnlockBlocks.readLine s.found⟩ := by
  unfold onLine extractLine
  dsimp only
  rw [ends_iff.mp h, if_neg (by decide), if_pos rfl, if_neg (by decide)]
  exact ⟨rfl, rfl⟩

/-- At a start one reader forgets the lines it holds. -/
theorem step_opens {line : String} (s : BlockReader) (h : opens line = true) :
    onLine s line = ⟨true, s.blockLines, s.found⟩ ∧ extractLine s line = ⟨true, [], s.found⟩ := by
  unfold onLine extractLine
  dsimp only
  rw [opens_iff.mp h, if_pos rfl, if_pos rfl]
  exact ⟨rfl, rfl⟩

theorem step_other {line : String} (s : BlockReader) (hends : ends line = false) (hopens : opens line = false) :
    onLine s line = ⟨s.inBlock, s.blockLines ++ (if s.inBlock then [line] else []), s.found⟩ ∧
      extractLine s line = onLine s line := by
  have hstart : trimString line ≠ "@@TURNLOCK@@" := fun h => by rw [opens_iff.mpr h] at hopens; cases hopens
  have hend : trimString line ≠ "@@END@@" := fun h => by rw [ends_iff.mpr h] at hends; cases hends
  unfold onLine extractLine
  dsimp only
  rw [if_neg hstart, if_neg hend, if_neg hstart]
  refine ⟨?_, rfl⟩
  obtain ⟨inBlock, held, found⟩ := s
  cases inBlock with
  | true => rfl
  | false => simp

theorem chunks_cons {line : String} (rest : List String) (h : ends line = false) :
    chunks (line :: rest) = match chunks rest with
      | [] => []
      | chunk :: more => (line :: chunk) :: more := by
  rw [chunks, h]
  rfl

/-- `main` reads the lines it holds and all lines of the blocks that end. -/
theorem onLine_foldl (lines : List String) (s : BlockReader) :
    (lines.foldl onLine s).found = match chunks lines with
      | [] => s.found
      | chunk :: more => (s.blockLines ++ (blockLines s.inBlock chunk ++ more.flatMap (blockLines false)).map (·.1)).foldl
          TurnlockBlocks.readLine s.found := by
  induction lines generalizing s with
  | nil => rfl
  | cons line rest ih =>
    rw [List.foldl_cons, ih]
    cases hends : ends line with
    | true =>
      rw [(step_ends s hends).1, chunks, if_pos hends]
      cases chunks rest with
      | nil => simp [blockLines]
      | cons chunk more => simp [blockLines]
    | false =>
      rw [chunks_cons rest hends]
      cases hopens : opens line with
      | true =>
        rw [(step_opens s hopens).1]
        cases chunks rest with
        | nil => rfl
        | cons chunk more => simp only [blockLines, hopens, if_pos]
      | false =>
        rw [(step_other s hends hopens).1]
        cases chunks rest with
        | nil => rfl
        | cons chunk more => cases hin : s.inBlock <;> simp [blockLines, hopens]

/-- `extractTurnlockBlocks` reads the lines no restart follows. -/
theorem extractLine_foldl (lines : List String) (s : BlockReader) :
    (lines.foldl extractLine s).found = match chunks lines with
      | [] => s.found
      | chunk :: more => ((if chunk.any opens then [] else s.blockLines) ++
          ((blockLines s.inBlock chunk ++ more.flatMap (blockLines false)).filter (·.2)).map (·.1)).foldl
            TurnlockBlocks.readLine s.found := by
  induction lines generalizing s with
  | nil => rfl
  | cons line rest ih =>
    rw [List.foldl_cons, ih]
    cases hends : ends line with
    | true =>
      rw [(step_ends s hends).2, chunks, if_pos hends]
      cases chunks rest with
      | nil => simp [blockLines]
      | cons chunk more => simp [blockLines]
    | false =>
      rw [chunks_cons rest hends]
      cases hopens : opens line with
      | true =>
        rw [(step_opens s hopens).2]
        cases chunks rest with
        | nil => rfl
        | cons chunk more => simp [blockLines, hopens]
      | false =>
        rw [(step_other s hends hopens).2, (step_other s hends hopens).1]
        cases chunks rest with
        | nil => rfl
        | cons chunk more =>
          cases hin : s.inBlock <;> cases hany : chunk.any opens <;> simp [blockLines, hopens, hany]

/-! ## The fields -/

theorem readLine_foldl (lines : List String) (found : TurnlockBlocks) :
    lines.foldl TurnlockBlocks.readLine found =
      ⟨((lines.filterMap (serializedField MANIFEST_LINE)).getLast?).or found.manifestPath,
        ((lines.filterMap (serializedField RESUME_LINE)).getLast?).or found.resumeCmd⟩ := by
  induction lines generalizing found with
  | nil => rfl
  | cons line rest ih =>
    rw [List.foldl_cons, ih]
    have hlast : ∀ (pattern : Re) (old : Option String),
        (rest.filterMap (serializedField pattern)).getLast?.or ((serializedField pattern line).or old) =
          (((line :: rest).filterMap (serializedField pattern)).getLast?).or old := by
      intro pattern old
      rw [List.filterMap_cons]
      cases serializedField pattern line with
      | none => rfl
      | some value =>
        dsimp only
        rw [List.getLast?_cons]
        cases (rest.filterMap (serializedField pattern)).getLast? <;> rfl
    exact congr (congrArg TurnlockBlocks.mk (hlast _ _)) (hlast _ _)

/-- The last that gives something, if any does. -/
theorem last_giving {α β : Type} (f : α → Option β) (l : List α) :
    (∀ a ∈ l, f a = none) ∨
      ∃ before a after, l = before ++ a :: after ∧ (f a).isSome = true ∧ ∀ b ∈ after, f b = none := by
  induction l with
  | nil => exact .inl fun a ha => (by cases ha)
  | cons a l ih =>
    rcases ih with hnone | ⟨before, b, after, hl, hb, hafter⟩
    · cases ha : f a with
      | none => exact .inl fun c hc => (List.mem_cons.mp hc).elim (fun h => h ▸ ha) (hnone c)
      | some v => exact .inr ⟨[], a, l, rfl, by rw [ha]; rfl, hnone⟩
    · exact .inr ⟨a :: before, b, after, by rw [hl, List.cons_append], hb, hafter⟩

theorem filterMap_last {α β : Type} (f : α → Option β) {before after : List α} {a : α} (ha : (f a).isSome = true)
    (hafter : ∀ b ∈ after, f b = none) : ((before ++ a :: after).filterMap f).getLast? = f a := by
  obtain ⟨v, hv⟩ := Option.isSome_iff_exists.mp ha
  have hnil : after.filterMap f = [] := List.filterMap_eq_nil_iff.mpr hafter
  rw [List.filterMap_append, List.filterMap_cons, hv, hnil]
  exact List.getLast?_concat

/-- The last of all is the last of the kept exactly when, if it is not kept, they give the same. -/
theorem last_kept_iff {α β : Type} (f : α × Bool → Option β) (all : List (α × Bool)) :
    (all.filterMap f).getLast? = ((all.filter (·.2)).filterMap f).getLast? ↔
      ∀ before a after, all = before ++ (a, false) :: after → (f (a, false)).isSome = true →
        (∀ b ∈ after, f b = none) → ((before.filter (·.2)).filterMap f).getLast? = f (a, false) := by
  constructor
  · intro hsame before a after hall hgives hafter
    rw [hall, filterMap_last f hgives hafter, List.filter_append, List.filterMap_append] at hsame
    have hnil : (((a, false) :: after).filter (·.2)).filterMap f = [] := by
      rw [List.filter_cons_of_neg Bool.false_ne_true, List.filterMap_eq_nil_iff]
      exact fun b hb => hafter b (List.mem_filter.mp hb).1
    rw [hnil, List.append_nil] at hsame
    exact hsame.symm
  · intro hharmless
    rcases last_giving f all with hnone | hlast
    · rw [List.filterMap_eq_nil_iff.mpr hnone,
        List.filterMap_eq_nil_iff.mpr fun b hb => hnone b (List.mem_filter.mp hb).1]
    · obtain ⟨before, ⟨a, kept⟩, after, hall, hgives, hafter⟩ := hlast
      have hfilter : ∀ b ∈ after.filter (·.2), f b = none := fun b hb => hafter b (List.mem_filter.mp hb).1
      cases kept with
      | true =>
        rw [hall, filterMap_last f hgives hafter, List.filter_append, List.filter_cons_of_pos rfl,
          filterMap_last f hgives hfilter]
      | false =>
        have hlast := hharmless before a after hall hgives hafter
        rw [hall, filterMap_last f hgives hafter, List.filter_append, List.filter_cons_of_neg Bool.false_ne_true,
          List.filterMap_append, List.filterMap_eq_nil_iff.mpr hfilter, List.append_nil, hlast]

theorem field_agrees_iff (pattern : Re) (lines : List String) :
    ((endedLines lines).filterMap fun line => serializedField pattern line.1).getLast? =
        (((endedLines lines).filter (·.2)).filterMap fun line => serializedField pattern line.1).getLast? ↔
      RestartHarmless pattern lines :=
  last_kept_iff (fun line : String × Bool => serializedField pattern line.1) (endedLines lines)

/-! ## The two readers -/

theorem mainBlocks_eq (lines : List String) :
    mainBlocks lines = ((endedLines lines).map (·.1)).foldl TurnlockBlocks.readLine ⟨none, none⟩ := by
  unfold mainBlocks endedLines
  rw [onLine_foldl]
  cases chunks lines <;> rfl

/-- The lines of a stream come back from its text, with an empty one after them. -/
theorem splitString_stream {lines : List String} (h : ∀ line ∈ lines, IsLine line) :
    splitString '\n' (streamText lines) = lines ++ [""] := by
  have hnewline : ∀ p ∈ lines.map String.toList, '\n' ∉ p := by
    intro p hp hmem
    obtain ⟨line, hline, rfl⟩ := List.mem_map.mp hp
    exact absurd (h line hline '\n' hmem) (by decide)
  have hsplit := splitOn_ended hnewline
  rw [List.flatMap_map] at hsplit
  unfold splitString streamText
  rw [String.toList_ofList, hsplit, List.map_append, List.map_map]
  simp [Function.comp_def]

theorem extractTurnlockBlocks_eq {lines : List String} (h : ∀ line ∈ lines, IsLine line) :
    extractTurnlockBlocks (streamText lines) =
      (((endedLines lines).filter (·.2)).map (·.1)).foldl TurnlockBlocks.readLine ⟨none, none⟩ := by
  have hempty : ∀ s : BlockReader, (extractLine s "").found = s.found := by
    intro s
    rw [(step_other s (by decide) (by decide)).2, (step_other s (by decide) (by decide)).1]
  unfold extractTurnlockBlocks endedLines
  rw [splitString_stream h, List.foldl_append, List.foldl_cons, List.foldl_nil, hempty, extractLine_foldl]
  cases chunks lines with
  | nil => rfl
  | cons chunk more => simp [BlockReader.start]

/-- For which streams both readers find the same manifest and the same command. -/
theorem readers_agree_iff {lines : List String} (h : ∀ line ∈ lines, IsLine line) :
    mainBlocks lines = extractTurnlockBlocks (streamText lines) ↔
      RestartHarmless MANIFEST_LINE lines ∧ RestartHarmless RESUME_LINE lines := by
  rw [mainBlocks_eq, extractTurnlockBlocks_eq h, readLine_foldl, readLine_foldl, ← field_agrees_iff, ← field_agrees_iff,
    TurnlockBlocks.mk.injEq, Option.or_none, Option.or_none, Option.or_none, Option.or_none]
  simp only [List.filterMap_map]
  exact Iff.rfl

theorem isLine_of_all {lines : List String}
    (h : (lines.all fun line => line.toList.all fun c => !isLineTerminator c.toNat) = true) :
    ∀ line ∈ lines, IsLine line := by
  intro line hline c hc
  have hall := List.all_eq_true.mp (List.all_eq_true.mp h line hline) c hc
  exact (Bool.not_eq_true' _).mp hall

def wholeBlock : List String := ["@@TURNLOCK@@", "manifest: /m", "resume_cmd: \"a b\"", "@@END@@"]

theorem wholeBlock_harmless : RestartHarmless MANIFEST_LINE wholeBlock ∧ RestartHarmless RESUME_LINE wholeBlock :=
  (readers_agree_iff (isLine_of_all (by decide +kernel))).mp (by decide +kernel)

def restartedBlock : List String := ["@@TURNLOCK@@", "manifest: /m", "@@TURNLOCK@@", "resume_cmd: r", "@@END@@"]

/-- A block that names its manifest, is opened again and names its command. -/
theorem restart_shows : (∀ line ∈ restartedBlock, IsLine line) ∧
    mainBlocks restartedBlock = ⟨some "/m", some "r"⟩ ∧
    extractTurnlockBlocks (streamText restartedBlock) = ⟨none, some "r"⟩ :=
  ⟨isLine_of_all (by decide +kernel), by decide +kernel, by decide +kernel⟩

end GitCommitsPush.Bridge
