/-
  GitCommitsPush.Trust.WholePaths — which paths of a stack text pass for a helper's.

  A stack text is made of frames that name one file location each. The check looks at the
  character after an occurrence and never at the one before it, so a path passes that ends in a
  helper's path, or goes on after one with a `:` or a `)`.
  - `normalizeStackPaths_line`: a frame is decoded and normalised apart from the others.
  - `holdsPath_line`: an occurrence starts and ends in one location.
  - `issuer_stack_exact_iff`: only the helpers' own paths pass, in a stack and alone, when every
    location that holds a helper's path is that path. One is not in `suffix_authorised`.
-/

import GitCommitsPush.Trust.IssuerStack

namespace GitCommitsPush.Trust

open GitCommitsPush.Lib.JsText
open GitCommitsPush.Lib.PercentDecoding
open GitCommitsPush.Lib.PosixPath
open GitCommitsPush.Lib.TextSearch

/-- The characters that end a path or stand between its segments. -/
def separators : List Char := ['/', ':', ')', '\n']

/-- A normal form acts on what stands between characters of ASCII, and leaves separators alone. -/
structure NormalForm (nfc : List Char → List Char) : Prop where
  ascii : ∀ (before : List Char) (c : Char) (after : List Char), c.toNat < 0x80 →
    nfc (before ++ c :: after) = nfc before ++ nfc (c :: after)
  separator : ∀ c ∈ separators, ∀ after : List Char, nfc (c :: after) = c :: nfc after
  mem : ∀ c ∈ separators, ∀ text : List Char, c ∈ nfc text → c ∈ text
  nonempty : ∀ text : List Char, text ≠ [] → nfc text ≠ []

/-- `text path position`, or with a URL for the path. -/
structure Frame where
  text : List Char
  url : Bool
  path : List Char
  position : List Char
  text_plain : ∀ c ∈ text, c ∉ ['/', '\\', '%']
  path_absolute : path.head? = some '/'
  position_plain : ∀ c ∈ position, c ∉ ['/', '\\', '%']
  position_ends : isStackPathEnd position.head? = true

def Frame.location (frame : Frame) : List Char := if frame.url then "file://".toList ++ frame.path else frame.path

def Frame.line (frame : Frame) : List Char := frame.text ++ (frame.location ++ frame.position)

def stackText (frames : List Frame) : List Char := joinWith ['\n'] (frames.map Frame.line)

variable (env : TrustEnvironment)

/-- The file path of the frame is an authorised one. -/
def Frame.Exact (workingDirectory : String) (frame : Frame) : Prop :=
  ∃ issuerPath ∈ authorizedIssuerPathsForWorkingDirectory env workingDirectory,
    normalizeStackPaths env frame.path = some (env.nfc (forwardSlashes issuerPath.toList))

/-- The text holds an authorised path that ends there, or goes on with a `:`, a `)` or a line end. -/
def Contains (workingDirectory : String) (text : List Char) : Prop :=
  ∃ found, normalizeStackPaths env text = some found ∧ ∃ issuerPath ∈ authorizedIssuerPathsForWorkingDirectory env workingDirectory,
    HoldsPath (env.nfc (forwardSlashes issuerPath.toList)) found

/-- An authorised path with a line end in it runs over several frames, and no location holds one. -/
def RunsOver (workingDirectory : String) (frames : List Frame) : Prop :=
  '\n' ∈ workingDirectory.toList ∧ Contains env workingDirectory (stackText frames) ∧
    ∀ frame ∈ frames, ¬ Contains env workingDirectory frame.location

/-- No location goes on before or after an authorised path. -/
structure Unsurrounded (workingDirectory : String) (frames : List Frame) : Prop where
  whole : ∀ frame ∈ frames, Contains env workingDirectory frame.location → frame.Exact env workingDirectory
  apart : ¬ RunsOver env workingDirectory frames

variable {env}

/-! ## Normal forms -/

variable {nfc : List Char → List Char}

theorem NormalForm.nil (h : NormalForm nfc) : nfc [] = [] := by
  have hslash := h.ascii [] '/' [] (by decide)
  rw [List.nil_append] at hslash
  exact List.self_eq_append_left.mp hslash

/-- Texts are normalised apart where the second starts in ASCII. -/
theorem NormalForm.append (h : NormalForm nfc) (before : List Char) {after : List Char} (hhead : ∀ c ∈ after.head?, c.toNat < 0x80) :
    nfc (before ++ after) = nfc before ++ nfc after := by
  cases after with
  | nil => rw [h.nil, List.append_nil, List.append_nil]
  | cons c after => exact h.ascii before c after (hhead c rfl)

/-- A separator that starts the text still does. -/
theorem NormalForm.head (h : NormalForm nfc) {text : List Char} (hhead : ∀ c ∈ text.head?, c ∈ separators) :
    (nfc text).head? = text.head? := by
  cases text with
  | nil => rw [h.nil]
  | cons c text => rw [h.separator c (hhead c rfl) text, List.head?_cons, List.head?_cons]

/-! ## The text of a stack -/

theorem isStackPathEnd_separator {c : Char} (h : isStackPathEnd (some c) = true) : c ∈ separators ∧ c ≠ '/' := by
  unfold isStackPathEnd at h
  rw [Bool.or_eq_true, Bool.or_eq_true, beq_iff_eq, beq_iff_eq, beq_iff_eq] at h
  rcases h with (rfl | rfl) | rfl <;> decide

theorem clear_of_all {cs text : List Char} (h : (cs.all fun c => !text.contains c) = true) : ∀ c ∈ cs, c ∉ text := by
  intro c hc hmem
  have hclear := List.all_eq_true.mp h c hc
  rw [List.contains_iff_mem.mpr hmem] at hclear
  cases hclear

theorem separators_plain {c : Char} (h : c ∈ separators) : c.toNat < 0x80 ∧ c ≠ '\\' := by
  have hall : (separators.all fun c => decide (c.toNat < 0x80 ∧ c ≠ '\\')) = true := by decide
  exact of_decide_eq_true (List.all_eq_true.mp hall c h)

theorem forwardSlashes_append (a b : List Char) : forwardSlashes (a ++ b) = forwardSlashes a ++ forwardSlashes b := List.map_append

/-- Only a slash or a backslash becomes a slash, and nothing else becomes another character. -/
theorem forwardSlashes_mem {text : List Char} {c : Char} (h : c ∈ forwardSlashes text) : c ∈ text ∨ (c = '/' ∧ '\\' ∈ text) := by
  obtain ⟨d, hd, hc⟩ := List.mem_map.mp h
  by_cases hback : d = '\\'
  · rw [if_pos hback] at hc
    exact .inr ⟨hc.symm, hback ▸ hd⟩
  · rw [if_neg hback] at hc
    exact .inl (hc ▸ hd)

theorem Frame.location_head (frame : Frame) : ∃ c rest, frame.location = c :: rest ∧ c ≠ '%' ∧ c ≠ '\\' ∧ c.toNat < 0x80 := by
  unfold Frame.location
  by_cases hurl : frame.url = true
  · rw [if_pos hurl]
    exact ⟨'f', _, rfl, by decide⟩
  · rw [if_neg hurl]
    cases hpath : frame.path with
    | nil =>
      have := frame.path_absolute
      rw [hpath] at this
      cases this
    | cons c rest =>
      have habsolute := frame.path_absolute
      rw [hpath] at habsolute
      cases habsolute
      exact ⟨'/', rest, rfl, by decide⟩

/-- What follows the location, up to the end of the text. -/
theorem Frame.follower (frame : Frame) {rest : List Char} (hrest : ∀ c ∈ rest.head?, c = '\n') :
    isStackPathEnd (frame.position ++ rest).head? = true := by
  cases hposition : frame.position with
  | cons c position =>
    have hends := frame.position_ends
    rwa [hposition] at hends
  | nil =>
    cases rest with
    | nil => rfl
    | cons c rest =>
      cases hrest c rfl
      rfl

theorem decodeURI_head {c : Char} {text decoded : List Char} (hc : c ≠ '%') (h : decodeURI (c :: text) = some decoded) :
    ∃ rest, decoded = c :: rest := by
  have hplain := decodeURI_plain_append (show '%' ∉ [c] from fun hmem => hc (List.mem_singleton.mp hmem).symm) text
  rw [List.singleton_append, h] at hplain
  obtain ⟨rest, -, hrest⟩ := Option.map_eq_some_iff.mp hplain.symm
  exact ⟨rest, hrest.symm⟩

theorem forwardSlashes_head {c : Char} (hc : c ≠ '\\') (text : List Char) : forwardSlashes (c :: text) = c :: forwardSlashes text := by
  unfold forwardSlashes
  rw [List.map_cons, if_neg hc]

/-- A frame is decoded and normalised apart from the frames after it. -/
theorem normalizeStackPaths_line (hnfc : NormalForm env.nfc) (frame : Frame) {rest : List Char} (hrest : ∀ c ∈ rest.head?, c = '\n') :
    normalizeStackPaths env (frame.line ++ rest) =
      (normalizeStackPaths env frame.location).bind fun location => (normalizeStackPaths env rest).map fun later =>
        env.nfc (forwardSlashes frame.text) ++ (location ++ (env.nfc (forwardSlashes frame.position) ++ later)) := by
  have hfollower := frame.follower hrest
  have hcut : Cut (frame.position ++ rest) := by
    intro c hc
    rw [Option.mem_def.mp hc] at hfollower
    unfold isStackPathEnd at hfollower
    rw [Bool.or_eq_true, Bool.or_eq_true, beq_iff_eq, beq_iff_eq, beq_iff_eq] at hfollower
    rcases hfollower with (rfl | rfl) | rfl <;> decide
  have htext : '%' ∉ frame.text := fun hmem => frame.text_plain '%' hmem (by simp)
  have hposition : '%' ∉ frame.position := fun hmem => frame.position_plain '%' hmem (by simp)
  unfold normalizeStackPaths Frame.line
  rw [List.append_assoc, List.append_assoc, decodeURI_plain_append htext, decodeURI_append hcut, decodeURI_plain_append hposition]
  cases hlocation : decodeURI frame.location with
  | none => rfl
  | some location =>
    cases hlater : decodeURI rest with
    | none => rfl
    | some later =>
      show some _ = some _
      obtain ⟨c, path, hhead, hpercent, hback, hascii⟩ := frame.location_head
      rw [hhead] at hlocation
      obtain ⟨path, rfl⟩ := decodeURI_head hpercent hlocation
      -- what comes after the location starts with the same character before and after decoding
      have hlaterHead : ∀ d ∈ (forwardSlashes later).head?, d = '\n' := by
        cases rest with
        | nil =>
          cases hlater
          exact fun d hd => nomatch hd
        | cons d rest =>
          cases hrest d rfl
          obtain ⟨later, rfl⟩ := decodeURI_head (by decide) hlater
          rw [forwardSlashes_head (by decide)]
          exact fun d hd => (Option.some.inj hd).symm
      have hpositionHead : ∀ d ∈ (forwardSlashes frame.position ++ forwardSlashes later).head?, d.toNat < 0x80 := by
        cases hcs : frame.position with
        | nil =>
          intro d hd
          rw [hlaterHead d hd]
          decide
        | cons d position =>
          have hends := frame.position_ends
          rw [hcs] at hends
          have hplain := separators_plain (isStackPathEnd_separator hends).1
          rw [forwardSlashes_head hplain.2]
          exact fun e he => Option.some.inj he ▸ hplain.1
      refine congrArg some ?_
      show env.nfc (forwardSlashes (frame.text ++ (c :: path ++ (frame.position ++ later)))) =
        env.nfc (forwardSlashes frame.text) ++ (env.nfc (forwardSlashes (c :: path)) ++
          (env.nfc (forwardSlashes frame.position) ++ env.nfc (forwardSlashes later)))
      rw [forwardSlashes_append, forwardSlashes_append, forwardSlashes_append,
        hnfc.append _ (by rw [forwardSlashes_head hback]; exact fun d hd => Option.some.inj hd ▸ hascii),
        hnfc.append (forwardSlashes (c :: path)) hpositionHead,
        hnfc.append (forwardSlashes frame.position) fun d hd => by rw [hlaterHead d hd]; decide]

/-! ## Where an occurrence can stand -/

/-- An absolute path, with a last segment that no separator cuts. -/
def HelperPath (path : List Char) : Prop :=
  ∃ middle last, path = '/' :: (middle ++ '/' :: last) ∧ last ≠ [] ∧ ∀ c ∈ separators, c ∉ last

theorem HelperPath.nonempty {path : List Char} (h : HelperPath path) : path ≠ [] := by
  obtain ⟨middle, last, rfl, -⟩ := h
  exact List.cons_ne_nil _ _

/-- What comes after a location has no slash before a line end, and so before what the path lacks. -/
theorem HelperPath.apart {path text rest : List Char} (h : HelperPath path) (hends : isStackPathEnd rest.head? = true)
    (hline : ∀ beginning, beginning <+: rest → (∀ c ∈ beginning, c ∈ path) → '/' ∉ beginning) : Apart path text rest := by
  intro before tail _ _ hprefix
  obtain ⟨after, hafter⟩ := hprefix
  rcases List.append_eq_append_iff.mp hafter with ⟨overhang, htail, -⟩ | ⟨overhang, hpath, hrest⟩
  · exact ⟨overhang, htail.symm⟩
  cases overhang with
  | nil => exact ⟨[], by rw [hpath]; simp⟩
  | cons c overhang =>
    rw [hrest] at hends
    have hseparator := (isStackPathEnd_separator hends).1
    have hslash : '/' ∉ c :: overhang := by
      refine hline (c :: overhang) ⟨after, hrest.symm⟩ fun d hmem => ?_
      rw [hpath]
      exact List.mem_append_right _ hmem
    obtain ⟨middle, last, hshape, -, hlast⟩ := h
    have hcut : ('/' :: middle ++ ['/']) ++ last = tail ++ c :: overhang := by
      rw [← hpath, hshape]
      simp
    rcases List.append_eq_append_iff.mp hcut with ⟨inner, -, hover⟩ | ⟨inner, htail, hover⟩
    · -- the whole overhang belongs to the last segment
      have hmem : c ∈ last := by
        rw [hover]
        exact List.mem_append_right inner List.mem_cons_self
      exact absurd hmem (hlast c hseparator)
    · rcases List.eq_nil_or_concat inner with rfl | ⟨inner, d, rfl⟩
      · rw [List.nil_append] at hover
        exact absurd (hover ▸ List.mem_cons_self) (hlast c hseparator)
      · -- the overhang has the slash before the last segment
        rw [List.concat_eq_append, ← List.append_assoc] at htail
        have hd : ['/'] = [d] := (List.append_inj' htail rfl).2
        cases hd
        refine absurd ?_ hslash
        rw [hover, List.concat_eq_append]
        exact List.mem_append_left _ (List.mem_append_right _ (List.mem_singleton.mpr rfl))

/-- A text without a slash or a backslash has none once it is normalised. -/
theorem slashless (hnfc : NormalForm env.nfc) {text : List Char} (h : ∀ c ∈ text, c ∉ ['/', '\\', '%']) :
    '/' ∉ env.nfc (forwardSlashes text) := by
  intro hmem
  rcases forwardSlashes_mem (hnfc.mem '/' (by decide) _ hmem) with hslash | hback
  · exact h '/' hslash (by decide)
  · exact h '\\' hback.2 (by decide)

/-- An occurrence stands in the location of the frame or after the frame, unless it runs over its line end. -/
theorem holdsPath_line (hnfc : NormalForm env.nfc) (frame : Frame) {path location later : List Char} (hpath : HelperPath path)
    (hover : '\n' ∈ path → later = []) (hlater : ∀ c ∈ later.head?, c = '\n') :
    HoldsPath path (env.nfc (forwardSlashes frame.text) ++ (location ++ (env.nfc (forwardSlashes frame.position) ++ later))) ↔
      HoldsPath path location ∨ HoldsPath path later := by
  have htext := slashless hnfc frame.text_plain
  have hposition := slashless hnfc frame.position_plain
  have hhead : isStackPathEnd (env.nfc (forwardSlashes frame.position) ++ later).head? = true := by
    cases hcs : frame.position with
    | nil =>
      rw [show forwardSlashes [] = [] from rfl, hnfc.nil, List.nil_append]
      cases later with
      | nil => rfl
      | cons c later =>
        cases hlater c rfl
        rfl
    | cons c position =>
      have hends := frame.position_ends
      rw [hcs] at hends
      have hseparator := (isStackPathEnd_separator hends).1
      rw [forwardSlashes_head (separators_plain hseparator).2, hnfc.separator c hseparator]
      exact hends
  have hline : ∀ beginning, beginning <+: env.nfc (forwardSlashes frame.position) ++ later → (∀ c ∈ beginning, c ∈ path) →
      '/' ∉ beginning := by
    intro beginning hbeginning hwithin hslash
    obtain ⟨after, hafter⟩ := hbeginning
    rcases List.append_eq_append_iff.mp hafter with ⟨overhang, hbegin, -⟩ | ⟨overhang, hbegin, hrest⟩
    · exact hposition (hbegin ▸ List.mem_append_left _ hslash)
    · cases overhang with
      | nil =>
        rw [List.append_nil] at hbegin
        exact hposition (hbegin ▸ hslash)
      | cons c overhang =>
        rw [hrest] at hlater
        cases hlater c rfl
        have hnone := hover (hwithin _ (hbegin ▸ List.mem_append_right _ List.mem_cons_self))
        rw [hrest] at hnone
        cases hnone
  have hapart : Apart path location (env.nfc (forwardSlashes frame.position) ++ later) := hpath.apart hhead hline
  have hne := hpath.nonempty
  obtain ⟨middle, last, hshape, -⟩ := hpath
  have hskipText : HoldsPath path (env.nfc (forwardSlashes frame.text) ++ (location ++ (env.nfc (forwardSlashes frame.position) ++ later))) ↔
      HoldsPath path (location ++ (env.nfc (forwardSlashes frame.position) ++ later)) := by
    rw [hshape]
    exact found_skip htext
  have hskipPosition : HoldsPath path (env.nfc (forwardSlashes frame.position) ++ later) ↔ HoldsPath path later := by
    rw [hshape]
    exact found_skip hposition
  have hsplit : HoldsPath path (location ++ (env.nfc (forwardSlashes frame.position) ++ later)) ↔
      HoldsPath path location ∨ HoldsPath path (env.nfc (forwardSlashes frame.position) ++ later) :=
    found_append hne hapart (show isStackPathEnd none = true from rfl) hhead
  rw [hskipText, hsplit, hskipPosition]

/-! ## The helpers' paths -/

/-- The segments below the working directory. -/
def helperFiles : List (List String × String) :=
  [(["src", "modules", "git"], "git-exec.ts"), (["src", "utils"], "git-utils.ts"), (["dist", "src", "modules", "git"], "git-exec.js"),
    (["dist", "src", "utils"], "git-utils.js"), (["src", "modules", "git"], "git-exec.js"), (["src", "utils"], "git-utils.js")]

theorem helperFiles_plain : ∀ file ∈ helperFiles, file.1 ≠ [] ∧ (∀ name ∈ file.1 ++ [file.2], IsName name.toList) ∧
    (∀ name ∈ file.1 ++ [file.2], '\n' ∉ name.toList) ∧ file.2.toList ≠ [] ∧
    (('\\' :: separators).all fun c => !file.2.toList.contains c) = true := by decide

theorem issuerPath_file {workingDirectory issuerPath : String}
    (h : issuerPath ∈ authorizedIssuerPathsForWorkingDirectory env workingDirectory) :
    ∃ file ∈ helperFiles, issuerPath = join (workingDirectory :: (file.1 ++ [file.2])) := by
  unfold authorizedIssuerPathsForWorkingDirectory at h
  dsimp only at h
  by_cases hsource : workingDirectory = resolveSourceRuntimeRoot env env.homedir
  · rw [if_pos hsource, ← hsource] at h
    simp only [List.mem_cons, List.not_mem_nil, or_false] at h
    rcases h with rfl | rfl | rfl | rfl
    · exact ⟨(["src", "modules", "git"], "git-exec.ts"), by decide, rfl⟩
    · exact ⟨(["src", "utils"], "git-utils.ts"), by decide, rfl⟩
    · exact ⟨(["dist", "src", "modules", "git"], "git-exec.js"), by decide, rfl⟩
    · exact ⟨(["dist", "src", "utils"], "git-utils.js"), by decide, rfl⟩
  · rw [if_neg hsource] at h
    simp only [List.mem_cons, List.not_mem_nil, or_false] at h
    rcases h with rfl | rfl
    · exact ⟨(["src", "modules", "git"], "git-exec.js"), by decide, rfl⟩
    · exact ⟨(["src", "utils"], "git-utils.js"), by decide, rfl⟩

theorem forwardSlashes_clear {text : List Char} (h : '\\' ∉ text) : forwardSlashes text = text := by
  have hsame : ∀ c ∈ text, (if c = '\\' then '/' else c) = id c := by
    intro c hc
    have hback : c ≠ '\\' := fun heq => h (heq ▸ hc)
    exact if_neg hback
  unfold forwardSlashes
  rw [List.map_congr_left hsame, List.map_id]

theorem issuerPath_shape (hnfc : NormalForm env.nfc) {workingDirectory issuerPath : String} (habsolute : isAbsolute workingDirectory = true)
    (h : issuerPath ∈ authorizedIssuerPathsForWorkingDirectory env workingDirectory) :
    HelperPath (env.nfc (forwardSlashes issuerPath.toList)) ∧
      ('\n' ∉ workingDirectory.toList → '\n' ∉ env.nfc (forwardSlashes issuerPath.toList)) := by
  obtain ⟨file, hfile, rfl⟩ := issuerPath_file h
  obtain ⟨hfolders, hnames, hlines, hfilled, hall⟩ := helperFiles_plain file hfile
  have hplain := clear_of_all hall
  obtain ⟨middle, hjoin, hmiddle⟩ := join_absolute_file habsolute hfolders hnames
  have hlast : forwardSlashes file.2.toList = file.2.toList := forwardSlashes_clear (hplain '\\' List.mem_cons_self)
  have hslash : ∀ c ∈ (('/' : Char) :: file.2.toList).head?, c.toNat < 0x80 := fun c hc => Option.some.inj hc ▸ by decide
  constructor
  · refine ⟨env.nfc (forwardSlashes middle), env.nfc file.2.toList, ?_, hnfc.nonempty _ hfilled, fun c hc hmem => ?_⟩
    · rw [hjoin, forwardSlashes_head (by decide), forwardSlashes_append, forwardSlashes_head (by decide), hlast,
        hnfc.separator '/' (by decide), hnfc.append _ hslash, hnfc.separator '/' (by decide)]
    · exact hplain c (List.mem_cons_of_mem _ hc) (hnfc.mem c hc _ hmem)
  · intro hline hmem
    rcases forwardSlashes_mem (hnfc.mem '\n' (by decide) _ hmem) with hmem | hslash
    · rw [hjoin, List.mem_cons, List.mem_append, List.mem_cons] at hmem
      rcases hmem with heq | hmem | heq | hmem
      · exact absurd heq (by decide)
      · rcases hmiddle '\n' hmem with heq | hmem | ⟨folder, hfolder, hmem⟩
        · exact absurd heq (by decide)
        · exact hline hmem
        · exact hlines folder (List.mem_append_left _ hfolder) hmem
      · exact absurd heq (by decide)
      · exact hlines file.2 (List.mem_append_right _ (List.mem_singleton.mpr rfl)) hmem
    · exact absurd hslash.1 (by decide)

theorem isAbsolute_of_authorized {workingDirectory homeDirectory : String}
    (h : isAuthorizedTrustTokenIssuerWorkingDirectory env workingDirectory homeDirectory = true) : isAbsolute workingDirectory = true := by
  unfold isAuthorizedTrustTokenIssuerWorkingDirectory at h
  cases habsolute : isAbsolute workingDirectory with
  | true => rfl
  | false =>
    rw [habsolute, if_pos rfl] at h
    cases h

/-! ## All frames -/

/-- The frames after the first, each with its line end. -/
def laterLines (frames : List Frame) : List Char := frames.flatMap fun frame => '\n' :: frame.line

theorem laterLines_head (frames : List Frame) : ∀ c ∈ (laterLines frames).head?, c = '\n' := by
  cases frames with
  | nil => exact fun c hc => nomatch hc
  | cons frame frames => exact fun c hc => (Option.some.inj hc).symm

theorem stackText_cons (frame : Frame) (frames : List Frame) : stackText (frame :: frames) = frame.line ++ laterLines frames := by
  induction frames generalizing frame with
  | nil => exact (List.append_nil frame.line).symm
  | cons other frames ih =>
    have hjoin : stackText (frame :: other :: frames) = frame.line ++ ['\n'] ++ stackText (other :: frames) := rfl
    rw [hjoin, ih other, List.append_assoc]
    rfl

theorem laterLines_cons (frame : Frame) (frames : List Frame) :
    laterLines (frame :: frames) = '\n' :: (frame.line ++ laterLines frames) := rfl

theorem normalizeStackPaths_newline (hnfc : NormalForm env.nfc) (text : List Char) :
    normalizeStackPaths env ('\n' :: text) = (normalizeStackPaths env text).map ('\n' :: ·) := by
  have hplain := decodeURI_plain_append (show '%' ∉ ['\n'] by decide) text
  rw [List.singleton_append] at hplain
  unfold normalizeStackPaths
  rw [hplain]
  cases decodeURI text with
  | none => rfl
  | some decoded =>
    show some (env.nfc (forwardSlashes ('\n' :: decoded))) = some ('\n' :: env.nfc (forwardSlashes decoded))
    rw [forwardSlashes_head (by decide), hnfc.separator '\n' (by decide)]

/-- Some frame's location holds the path. -/
def AnyHolds (env : TrustEnvironment) (path : List Char) (frames : List Frame) : Prop :=
  ∃ frame ∈ frames, ∃ location, normalizeStackPaths env frame.location = some location ∧ HoldsPath path location

theorem AnyHolds.cons {path : List Char} {frame : Frame} {frames : List Frame} {location : List Char}
    (h : normalizeStackPaths env frame.location = some location) :
    AnyHolds env path (frame :: frames) ↔ HoldsPath path location ∨ AnyHolds env path frames := by
  constructor
  · intro hany
    obtain ⟨other, hother, found, hfound, hholds⟩ := hany
    rcases List.mem_cons.mp hother with rfl | hother
    · rw [h] at hfound
      cases hfound
      exact .inl hholds
    · exact .inr ⟨other, hother, found, hfound, hholds⟩
  · intro hany
    rcases hany with hholds | ⟨other, hother, hrest⟩
    · exact ⟨frame, List.mem_cons_self, location, h, hholds⟩
    · exact ⟨other, List.mem_cons_of_mem _ hother, hrest⟩

/-- The frames after the first decode when each of their locations does, and hold what one of these holds. -/
theorem laterLines_normalized (hnfc : NormalForm env.nfc) {frames : List Frame}
    (h : ∀ frame ∈ frames, (normalizeStackPaths env frame.location).isSome = true) :
    ∃ text, normalizeStackPaths env (laterLines frames) = some text ∧ (∀ c ∈ text.head?, c = '\n') ∧
      ∀ path, HelperPath path → '\n' ∉ path → (HoldsPath path text ↔ AnyHolds env path frames) := by
  induction frames with
  | nil =>
    refine ⟨[], ?_, fun c hc => (nomatch hc), fun path hpath _ => ⟨fun hholds => ?_, fun hany => ?_⟩⟩
    · show some (env.nfc []) = some []
      rw [hnfc.nil]
    · obtain ⟨before, rest, hsplit, -⟩ := found_occurrence hholds
      simp [hpath.nonempty] at hsplit
    · obtain ⟨frame, hframe, -⟩ := hany
      cases hframe
  | cons frame frames ih =>
    obtain ⟨location, hlocation⟩ := Option.isSome_iff_exists.mp (h frame List.mem_cons_self)
    obtain ⟨later, hlater, hhead, hholds⟩ := ih fun other hother => h other (List.mem_cons_of_mem _ hother)
    refine ⟨'\n' :: (env.nfc (forwardSlashes frame.text) ++ (location ++ (env.nfc (forwardSlashes frame.position) ++ later))), ?_,
      fun c hc => (Option.some.inj hc).symm, fun path hpath hline => ?_⟩
    · rw [laterLines_cons, normalizeStackPaths_newline hnfc, normalizeStackPaths_line hnfc frame (laterLines_head frames), hlocation, hlater]
      rfl
    · have hskip : ∀ text, HoldsPath path ('\n' :: text) ↔ HoldsPath path text := by
        intro text
        obtain ⟨middle, last, hshape, -⟩ := hpath
        rw [hshape]
        exact found_skip (show '/' ∉ ['\n'] by decide)
      rw [hskip, holdsPath_line hnfc frame hpath (fun h => absurd h hline) hhead, hholds path hpath hline, AnyHolds.cons hlocation]

theorem laterLines_decoded (hnfc : NormalForm env.nfc) {frames : List Frame} {text : List Char}
    (h : normalizeStackPaths env (laterLines frames) = some text) :
    ∀ frame ∈ frames, (normalizeStackPaths env frame.location).isSome = true := by
  induction frames generalizing text with
  | nil => exact fun frame hframe => nomatch hframe
  | cons frame frames ih =>
    rw [laterLines_cons, normalizeStackPaths_newline hnfc, normalizeStackPaths_line hnfc frame (laterLines_head frames)] at h
    obtain ⟨line, hline, -⟩ := Option.map_eq_some_iff.mp h
    obtain ⟨location, hlocation, hline⟩ := Option.bind_eq_some_iff.mp hline
    obtain ⟨later, hlater, -⟩ := Option.map_eq_some_iff.mp hline
    intro other hother
    rcases List.mem_cons.mp hother with rfl | hother
    · rw [hlocation]
      rfl
    · exact ih hlater other hother

/-- A stack text holds a helper's path when a location of it does. -/
theorem stackText_normalized (hnfc : NormalForm env.nfc) {frames : List Frame} {text : List Char}
    (h : normalizeStackPaths env (stackText frames) = some text) {path : List Char} (hpath : HelperPath path) (hline : '\n' ∉ path) :
    HoldsPath path text ↔ AnyHolds env path frames := by
  cases frames with
  | nil =>
    obtain ⟨empty, hempty, -, hholds⟩ := laterLines_normalized hnfc (show ∀ frame ∈ ([] : List Frame), _ from fun _ h => nomatch h)
    cases h.symm.trans hempty
    exact hholds path hpath hline
  | cons frame frames =>
    rw [stackText_cons, normalizeStackPaths_line hnfc frame (laterLines_head frames)] at h
    obtain ⟨location, hlocation, hjoined⟩ := Option.bind_eq_some_iff.mp h
    obtain ⟨later, hlater, rfl⟩ := Option.map_eq_some_iff.mp hjoined
    obtain ⟨later', hlater', hhead, hholds⟩ := laterLines_normalized hnfc (laterLines_decoded hnfc hlater)
    cases hlater.symm.trans hlater'
    rw [holdsPath_line hnfc frame hpath (fun h => absurd h hline) hhead, hholds path hpath hline, AnyHolds.cons hlocation]

/-- The text of one frame holds a path when its location does, line ends or not. -/
theorem contains_single (hnfc : NormalForm env.nfc) {workingDirectory : String} (habsolute : isAbsolute workingDirectory = true)
    (frame : Frame) : Contains env workingDirectory (stackText [frame]) ↔ Contains env workingDirectory frame.location := by
  have hline := @normalizeStackPaths_line env hnfc frame [] fun c hc => nomatch hc
  have hnil : normalizeStackPaths env [] = some [] := congrArg some hnfc.nil
  rw [List.append_nil, hnil] at hline
  have hholds (location : List Char) (issuerPath : String)
      (hmem : issuerPath ∈ authorizedIssuerPathsForWorkingDirectory env workingDirectory) :
      HoldsPath (env.nfc (forwardSlashes issuerPath.toList))
          (env.nfc (forwardSlashes frame.text) ++ (location ++ (env.nfc (forwardSlashes frame.position) ++ []))) ↔
        HoldsPath (env.nfc (forwardSlashes issuerPath.toList)) location := by
    have hpath := (issuerPath_shape hnfc habsolute hmem).1
    rw [holdsPath_line hnfc frame hpath (fun _ => rfl) fun c hc => nomatch hc]
    refine or_iff_left fun hempty => ?_
    obtain ⟨before, rest, hsplit, -⟩ := found_occurrence hempty
    simp [hpath.nonempty] at hsplit
  constructor
  · intro h
    obtain ⟨text, htext, issuerPath, hmem, hfound⟩ := h
    rw [show stackText [frame] = frame.line from rfl, hline] at htext
    obtain ⟨location, hlocation, hjoined⟩ := Option.bind_eq_some_iff.mp htext
    cases hjoined
    exact ⟨location, hlocation, issuerPath, hmem, (hholds location issuerPath hmem).mp hfound⟩
  · intro h
    obtain ⟨location, hlocation, issuerPath, hmem, hfound⟩ := h
    refine ⟨_, ?_, issuerPath, hmem, (hholds location issuerPath hmem).mpr hfound⟩
    rw [show stackText [frame] = frame.line from rfl, hline, hlocation]
    rfl

/-- A path of one line that stands in the text stands in a location. -/
theorem contains_location (hnfc : NormalForm env.nfc) {workingDirectory : String} (habsolute : isAbsolute workingDirectory = true)
    (hline : '\n' ∉ workingDirectory.toList) {frames : List Frame} (h : Contains env workingDirectory (stackText frames)) :
    ∃ frame ∈ frames, Contains env workingDirectory frame.location := by
  obtain ⟨text, htext, issuerPath, hmem, hfound⟩ := h
  obtain ⟨hpath, hclear⟩ := issuerPath_shape hnfc habsolute hmem
  obtain ⟨frame, hframe, location, hlocation, hheld⟩ := (stackText_normalized hnfc htext hpath (hclear hline)).mp hfound
  exact ⟨frame, hframe, location, hlocation, issuerPath, hmem, hheld⟩

/-! ## A helper's own path -/

/-- A path that starts with a slash and does not end with one starts at no slash put before it. -/
theorem HelperPath.not_shifted {path : List Char} (h : HelperPath path) (slashes : List Char) (hslashes : ∀ c ∈ slashes, c = '/')
    (hne : slashes ≠ []) : ¬ path <+: slashes ++ path := by
  intro hshift
  obtain ⟨rest, hrest⟩ := hshift
  -- each symbol of the path is one of the slashes, or an earlier symbol of the path
  have hall : ∀ (i : Nat) (c : Char), path[i]? = some c → c = '/' := by
    intro i
    induction i using Nat.strongRecOn with
    | _ i ih =>
      intro c hc
      have hwhole : (path ++ rest)[i]? = some c := by
        rw [List.getElem?_append_left (List.getElem?_eq_some_iff.mp hc).1]
        exact hc
      rw [hrest] at hwhole
      by_cases hi : i < slashes.length
      · rw [List.getElem?_append_left hi] at hwhole
        exact hslashes c (List.mem_of_getElem? hwhole)
      · rw [List.getElem?_append_right (Nat.le_of_not_lt hi)] at hwhole
        have hpos := List.length_pos_iff.mpr hne
        exact ih (i - slashes.length) (by omega) c hwhole
  obtain ⟨middle, last, rfl, hlast, hclear⟩ := h
  obtain ⟨c, last, rfl⟩ := List.exists_cons_of_ne_nil hlast
  obtain ⟨i, hi⟩ := List.mem_iff_getElem?.mp (show c ∈ '/' :: (middle ++ '/' :: c :: last) by simp)
  have hc := hall i c hi
  exact hclear '/' (by decide) (hc ▸ List.mem_cons_self)

theorem HelperPath.holds_self {path : List Char} (h : HelperPath path) : HoldsPath path path := by
  obtain ⟨c, rest, rfl⟩ := List.exists_cons_of_ne_nil h.nonempty
  have hafter : afterFirst (c :: rest) (c :: rest) = some [] := by
    rw [afterFirst, if_pos (List.prefix_refl _), List.drop_length]
  exact .here hafter rfl

/-- What stands before the path of a URL holds nothing. -/
theorem HelperPath.holds_url {path : List Char} (h : HelperPath path) {scheme : List Char} (hscheme : '/' ∉ scheme) :
    HoldsPath path (scheme ++ '/' :: '/' :: path) := by
  have hself := h.holds_self
  have hone : ¬ path <+: '/' :: path := h.not_shifted ['/'] (fun c hc => List.mem_singleton.mp hc) (by decide)
  have htwo : ¬ path <+: '/' :: '/' :: path := h.not_shifted ['/', '/'] (fun c hc => by simpa using hc) (by decide)
  have hskip : afterFirst path ('/' :: '/' :: path) = afterFirst path path := by
    rw [afterFirst, if_neg htwo, afterFirst, if_neg hone]
  have hslashes : HoldsPath path ('/' :: '/' :: path) := by
    cases hself with
    | here hfirst hends => exact .here (hskip.trans hfirst) hends
    | later hfirst hlater => exact .later (hskip.trans hfirst) hlater
  obtain ⟨middle, last, rfl, -⟩ := h
  exact (found_skip hscheme).mpr hslashes

theorem normalizeStackPaths_url (hnfc : NormalForm env.nfc) {path normal : List Char} (h : normalizeStackPaths env path = some normal) :
    normalizeStackPaths env ("file://".toList ++ path) = some (env.nfc "file:".toList ++ '/' :: '/' :: normal) := by
  obtain ⟨decoded, hdecoded, rfl⟩ := Option.map_eq_some_iff.mp h
  have hscheme := decodeURI_plain_append (show '%' ∉ "file://".toList by decide) path
  rw [hdecoded] at hscheme
  unfold normalizeStackPaths
  rw [hscheme]
  show some (env.nfc (forwardSlashes ("file:".toList ++ '/' :: '/' :: decoded))) = _
  rw [forwardSlashes_append, forwardSlashes_head (by decide), forwardSlashes_head (by decide),
    hnfc.ascii _ '/' _ (by decide), hnfc.separator '/' (by decide), hnfc.separator '/' (by decide)]
  rfl

/-- A frame with a helper's own path holds it. -/
theorem Frame.Exact.contains (hnfc : NormalForm env.nfc) {workingDirectory : String} (habsolute : isAbsolute workingDirectory = true)
    {frame : Frame} (h : frame.Exact env workingDirectory) : Contains env workingDirectory frame.location := by
  obtain ⟨issuerPath, hmem, hexact⟩ := h
  have hpath := (issuerPath_shape hnfc habsolute hmem).1
  unfold Frame.location
  by_cases hurl : frame.url = true
  · rw [if_pos hurl]
    have hscheme : '/' ∉ env.nfc "file:".toList := fun hmem => absurd (hnfc.mem '/' (by decide) _ hmem) (by decide)
    exact ⟨_, normalizeStackPaths_url hnfc hexact, issuerPath, hmem, hpath.holds_url hscheme⟩
  · rw [if_neg hurl]
    exact ⟨_, hexact, issuerPath, hmem, hpath.holds_self⟩

/-! ## The check -/

/-- The stack is authorised when its text holds an authorised path. -/
theorem isAuthorized_contains (hnfc : NormalForm env.nfc) {workingDirectory : String} (frames : List Frame) :
    isAuthorizedTrustTokenIssuerStack env (some (String.ofList (stackText frames))) workingDirectory = true ↔
      isAuthorizedTrustTokenIssuerWorkingDirectory env workingDirectory env.homedir = true ∧
        Contains env workingDirectory (stackText frames) := by
  rw [isAuthorizedTrustTokenIssuerStack_iff, String.toList_ofList]
  constructor
  · intro h
    obtain ⟨-, hdirectory, text, htext, issuerPath, hmem, hboundary⟩ := h
    have hpath := (issuerPath_shape hnfc (isAbsolute_of_authorized hdirectory) hmem).1
    exact ⟨hdirectory, text, htext, issuerPath, hmem, (hasStackPathBoundary_iff hpath.nonempty text).mp hboundary⟩
  · intro h
    obtain ⟨hdirectory, text, htext, issuerPath, hmem, hfound⟩ := h
    have hpath := (issuerPath_shape hnfc (isAbsolute_of_authorized hdirectory) hmem).1
    refine ⟨?_, hdirectory, text, htext, issuerPath, hmem, (hasStackPathBoundary_iff hpath.nonempty text).mpr hfound⟩
    intro hempty
    have hnil : stackText frames = [] := by simpa using congrArg String.toList hempty
    rw [hnil] at htext
    have hnormal : text = [] := (Option.some.inj htext).symm.trans hnfc.nil
    obtain ⟨before, rest, hsplit, -⟩ := found_occurrence hfound
    rw [hnormal] at hsplit
    simp [hpath.nonempty] at hsplit

/-- An authorised stack names a helper's own path, and a frame that passes alone has one, when no
location goes on around such a path. -/
theorem issuer_stack_exact_iff (env : TrustEnvironment) (hnfc : NormalForm env.nfc) (workingDirectory : String) (frames : List Frame) :
    ((isAuthorizedTrustTokenIssuerStack env (some (String.ofList (stackText frames))) workingDirectory = true →
          ∃ frame ∈ frames, frame.Exact env workingDirectory) ∧
        ∀ frame ∈ frames, isAuthorizedTrustTokenIssuerStack env (some (String.ofList (stackText [frame]))) workingDirectory = true →
          frame.Exact env workingDirectory) ↔
      (isAuthorizedTrustTokenIssuerWorkingDirectory env workingDirectory env.homedir = true → Unsurrounded env workingDirectory frames) := by
  constructor
  · intro h hdirectory
    obtain ⟨hstack, halone⟩ := h
    have habsolute := isAbsolute_of_authorized hdirectory
    refine ⟨fun frame hframe hcontains => halone frame hframe ?_, fun hover => ?_⟩
    · exact (isAuthorized_contains hnfc [frame]).mpr ⟨hdirectory, (contains_single hnfc habsolute frame).mpr hcontains⟩
    · obtain ⟨-, hcontains, hnone⟩ := hover
      obtain ⟨frame, hframe, hexact⟩ := hstack ((isAuthorized_contains hnfc frames).mpr ⟨hdirectory, hcontains⟩)
      exact hnone frame hframe (hexact.contains hnfc habsolute)
  · intro h
    refine ⟨fun hauthorized => ?_, fun frame hframe hauthorized => ?_⟩
    · obtain ⟨hdirectory, hcontains⟩ := (isAuthorized_contains hnfc frames).mp hauthorized
      have habsolute := isAbsolute_of_authorized hdirectory
      have hlocated : ∃ frame ∈ frames, Contains env workingDirectory frame.location := by
        by_cases hline : '\n' ∈ workingDirectory.toList
        · by_contra hnone
          exact (h hdirectory).apart ⟨hline, hcontains, fun frame hframe hheld => hnone ⟨frame, hframe, hheld⟩⟩
        · exact contains_location hnfc habsolute hline hcontains
      obtain ⟨frame, hframe, hheld⟩ := hlocated
      exact ⟨frame, hframe, (h hdirectory).whole frame hframe hheld⟩
    · obtain ⟨hdirectory, hcontains⟩ := (isAuthorized_contains hnfc [frame]).mp hauthorized
      have hheld := (contains_single hnfc (isAbsolute_of_authorized hdirectory) frame).mp hcontains
      exact (h hdirectory).whole frame hframe hheld

/-- A workspace whose paths are plain. -/
def sampleTrust : TrustEnvironment := ⟨id, fun _ => none, "/home/u", some "/home/u/git-commits-push"⟩

theorem sample_text_plain : ∀ c ∈ "at helper (".toList, c ∉ ['/', '\\', '%'] := clear_of_all (by decide)

theorem sample_position_plain : ∀ c ∈ ":1:1)".toList, c ∉ ['/', '\\', '%'] := clear_of_all (by decide)

def sampleFrame (path : List Char) (h : path.head? = some '/') : Frame :=
  ⟨"at helper (".toList, false, path, ":1:1)".toList, sample_text_plain, h, sample_position_plain, rfl⟩

theorem id_normalForm : NormalForm id := ⟨fun _ _ _ _ => rfl, fun _ _ _ => rfl, fun _ _ _ h => h, fun _ h => h⟩

theorem helper_stack_exact :
    NormalForm sampleTrust.nfc ∧
      (isAuthorizedTrustTokenIssuerStack sampleTrust
          (some (String.ofList (stackText [sampleFrame "/home/u/git-commits-push/src/utils/git-utils.ts".toList rfl])))
          "/home/u/git-commits-push" = true →
        ∃ frame ∈ [sampleFrame "/home/u/git-commits-push/src/utils/git-utils.ts".toList rfl], frame.Exact sampleTrust "/home/u/git-commits-push") := by
  refine ⟨id_normalForm, ((issuer_stack_exact_iff sampleTrust id_normalForm "/home/u/git-commits-push"
    [sampleFrame "/home/u/git-commits-push/src/utils/git-utils.ts".toList rfl]).mpr fun _ => ⟨?_, ?_⟩).1⟩
  · intro frame hframe _
    rw [List.mem_singleton.mp hframe]
    exact ⟨"/home/u/git-commits-push/src/utils/git-utils.ts", by decide +kernel, by decide +kernel⟩
  · intro hover
    exact absurd hover.1 (by decide)

/-- A file elsewhere passes for a helper when its path ends in the helper's. -/
theorem suffix_authorised :
    isAuthorizedTrustTokenIssuerStack sampleTrust
        (some (String.ofList (stackText [sampleFrame "/tmp/home/u/git-commits-push/src/utils/git-utils.ts".toList rfl])))
        "/home/u/git-commits-push" = true ∧
      ¬ ∃ frame ∈ [sampleFrame "/tmp/home/u/git-commits-push/src/utils/git-utils.ts".toList rfl],
        frame.Exact sampleTrust "/home/u/git-commits-push" := by
  refine ⟨by decide +kernel, ?_⟩
  intro hexact
  obtain ⟨frame, hframe, issuerPath, hmem, heq⟩ := hexact
  rw [List.mem_singleton.mp hframe] at heq
  have hnone : ∀ issuerPath ∈ authorizedIssuerPathsForWorkingDirectory sampleTrust "/home/u/git-commits-push",
      normalizeStackPaths sampleTrust "/tmp/home/u/git-commits-push/src/utils/git-utils.ts".toList ≠
        some (forwardSlashes issuerPath.toList) := by decide +kernel
  exact hnone issuerPath hmem heq

end GitCommitsPush.Trust
