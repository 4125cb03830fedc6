/-
  GitCommitsPush.Lib.PosixPath — `path.posix`: `normalize`, `join`, `dirname`, `basename`.

  What is joined to an absolute path is its last segments (`join_absolute`), as long as
  none of them is empty or made of dots.
-/

import GitCommitsPush.Lib.JsText

namespace GitCommitsPush.Lib.PosixPath

open GitCommitsPush.Lib.JsText

/-- The segments kept so far, innermost first, after one more. -/
def pushSegment (allowAboveRoot : Bool) (kept : List (List Char)) (segment : List Char) : List (List Char) :=
  if segment = [] ∨ segment = ['.'] then kept
  else if segment = ['.', '.'] then match kept with
    | top :: rest => if top = ['.', '.'] then segment :: kept else rest
    | [] => if allowAboveRoot then [segment] else []
  else segment :: kept

def normalizeString (allowAboveRoot : Bool) (path : List Char) : List Char :=
  joinWith ['/'] ((splitOn '/' path).foldl (pushSegment allowAboveRoot) []).reverse

/-- `path.posix.normalize`. -/
def normalize (path : String) : String :=
  let chars := path.toList
  if chars = [] then "."
  else
    let isAbsolute := chars.head? == some '/'
    let trailingSeparator := chars.getLast? == some '/'
    let body := normalizeString (!isAbsolute) chars
    let body := if body = [] ∧ !isAbsolute then ['.'] else body
    let body := if body ≠ [] ∧ trailingSeparator then body ++ ['/'] else body
    String.ofList (if isAbsolute then '/' :: body else body)

example : normalize "a//b/../c/." = "a/c" := by decide

/-- `path.posix.join`: empty parts are left out. -/
def join (parts : List String) : String := match parts.filter (· ≠ "") with
  | [] => "."
  | parts => normalize (joinStrings "/" parts)

def isAbsolute (path : String) : Bool := path.toList.head? == some '/'

/-- `path.posix.dirname`: up to the last separator that a name follows. -/
def dirname (path : String) : String := match path.toList with
  | [] => "."
  | first :: rest =>
    let above := (rest.reverse.dropWhile (· == '/')).dropWhile (· != '/')
    if above = [] then if first = '/' then "/" else "."
    else if first = '/' ∧ above.length = 1 then "//"
    else String.ofList ((first :: rest).take above.length)

/-- `path.posix.basename`. -/
def basename (path : String) : String :=
  String.ofList ((path.toList.reverse.dropWhile (· == '/')).takeWhile (· != '/')).reverse

example : dirname "/a/b/" = "/a" := by decide

example : basename "/a/b/" = "b" := by decide

/-! ## Joined paths -/

/-- A segment that is kept as it is. -/
def IsName (segment : List Char) : Prop := segment ≠ [] ∧ segment ≠ ['.'] ∧ segment ≠ ['.', '.'] ∧ '/' ∉ segment

instance : DecidablePred IsName := fun segment =>
  inferInstanceAs (Decidable (segment ≠ [] ∧ segment ≠ ['.'] ∧ segment ≠ ['.', '.'] ∧ '/' ∉ segment))

theorem pushSegment_name (allowAboveRoot : Bool) (kept : List (List Char)) {segment : List Char} (h : IsName segment) :
    pushSegment allowAboveRoot kept segment = segment :: kept := by
  unfold pushSegment
  rw [if_neg (not_or.mpr ⟨h.1, h.2.1⟩), if_neg h.2.2.1]

theorem pushSegment_names (allowAboveRoot : Bool) {names : List (List Char)} (h : ∀ name ∈ names, IsName name) (kept : List (List Char)) :
    names.foldl (pushSegment allowAboveRoot) kept = names.reverse ++ kept := by
  induction names generalizing kept with
  | nil => rfl
  | cons name names ih =>
    rw [List.foldl_cons, pushSegment_name allowAboveRoot kept (h name List.mem_cons_self),
      ih (fun other hother => h other (List.mem_cons_of_mem _ hother)), List.reverse_cons, List.append_assoc, List.singleton_append]

/-- What is kept of an absolute path has names only. -/
theorem pushSegment_absolute {kept : List (List Char)} (hkept : ∀ name ∈ kept, IsName name) {segment : List Char} (h : '/' ∉ segment) :
    ∀ name ∈ pushSegment false kept segment, IsName name := by
  unfold pushSegment
  by_cases hskip : segment = [] ∨ segment = ['.']
  · rw [if_pos hskip]
    exact hkept
  rw [if_neg hskip]
  by_cases hdots : segment = ['.', '.']
  · rw [if_pos hdots]
    cases kept with
    | nil =>
      intro name hname
      rw [if_neg (by simp)] at hname
      cases hname
    | cons top rest =>
      dsimp only
      rw [if_neg (hkept top List.mem_cons_self).2.2.1]
      exact fun name hname => hkept name (List.mem_cons_of_mem _ hname)
  · rw [if_neg hdots]
    intro name hname
    rcases List.mem_cons.mp hname with rfl | hname
    · exact ⟨fun hnil => hskip (.inl hnil), fun hdot => hskip (.inr hdot), hdots, h⟩
    · exact hkept name hname

theorem pushSegment_mem {allowAboveRoot : Bool} {kept : List (List Char)} {segment name : List Char}
    (h : name ∈ pushSegment allowAboveRoot kept segment) : name = segment ∨ name ∈ kept := by
  unfold pushSegment at h
  split at h
  · exact .inr h
  split at h
  · cases kept with
    | nil =>
      dsimp only at h
      split at h
      · exact .inl (List.mem_singleton.mp h)
      · cases h
    | cons top rest =>
      dsimp only at h
      split at h
      · exact List.mem_cons.mp h
      · exact .inr (List.mem_cons_of_mem _ h)
  · exact List.mem_cons.mp h

theorem splitOn_clear (sep : Char) (s : List Char) : ∀ part ∈ splitOn sep s, sep ∉ part := by
  induction s with
  | nil =>
    intro part hpart
    rw [splitOn, List.mem_singleton] at hpart
    rw [hpart]
    exact List.not_mem_nil
  | cons c s ih =>
    intro part hpart
    rw [splitOn] at hpart
    by_cases hc : c = sep
    · rw [if_pos hc] at hpart
      rcases List.mem_cons.mp hpart with rfl | hpart
      · exact List.not_mem_nil
      · exact ih part hpart
    · rw [if_neg hc] at hpart
      cases hparts : splitOn sep s with
      | nil => exact absurd hparts (splitOn_ne_nil sep s)
      | cons first others =>
        rw [hparts] at hpart ih
        rcases List.mem_cons.mp hpart with rfl | hpart
        · intro hmem
          rcases List.mem_cons.mp hmem with heq | hmem
          · exact hc heq.symm
          · exact ih first List.mem_cons_self hmem
        · exact ih part (List.mem_cons_of_mem _ hpart)

theorem splitOn_append (sep : Char) (a b : List Char) : splitOn sep (a ++ sep :: b) = splitOn sep a ++ splitOn sep b := by
  induction a with
  | nil => simp [splitOn]
  | cons c a ih =>
    rw [List.cons_append, splitOn, splitOn]
    by_cases hc : c = sep
    · rw [if_pos hc, if_pos hc, ih, List.cons_append]
    · rw [if_neg hc, if_neg hc, ih]
      cases hparts : splitOn sep a with
      | nil => exact absurd hparts (splitOn_ne_nil sep a)
      | cons first others => rfl

/-- A part has characters of the text only. -/
theorem splitOn_mem {sep : Char} {s part : List Char} (hpart : part ∈ splitOn sep s) {c : Char} (hc : c ∈ part) : c ∈ s := by
  induction s generalizing part with
  | nil =>
    rw [splitOn, List.mem_singleton] at hpart
    rw [hpart] at hc
    cases hc
  | cons d s ih =>
    rw [splitOn] at hpart
    by_cases hd : d = sep
    · rw [if_pos hd] at hpart
      rcases List.mem_cons.mp hpart with rfl | hpart
      · cases hc
      · exact List.mem_cons_of_mem d (ih hpart hc)
    · rw [if_neg hd] at hpart
      cases hparts : splitOn sep s with
      | nil => exact absurd hparts (splitOn_ne_nil sep s)
      | cons first others =>
        rw [hparts] at hpart ih
        rcases List.mem_cons.mp hpart with rfl | hpart
        · rcases List.mem_cons.mp hc with rfl | hc
          · exact List.mem_cons_self
          · exact List.mem_cons_of_mem d (ih List.mem_cons_self hc)
        · exact List.mem_cons_of_mem d (ih (List.mem_cons_of_mem _ hpart) hc)

theorem joinWith_cons (sep part : List Char) {parts : List (List Char)} (h : parts ≠ []) :
    joinWith sep (part :: parts) = part ++ sep ++ joinWith sep parts := by
  cases parts with
  | nil => exact absurd rfl h
  | cons other parts => rfl

theorem joinWith_concat (sep : List Char) {parts : List (List Char)} (h : parts ≠ []) (last : List Char) :
    joinWith sep (parts ++ [last]) = joinWith sep parts ++ sep ++ last := by
  induction parts with
  | nil => exact absurd rfl h
  | cons part parts ih =>
    by_cases hparts : parts = []
    · rw [hparts]
      rfl
    · rw [List.cons_append, joinWith_cons sep part (by simp), ih hparts, joinWith_cons sep part hparts]
      simp

theorem joinWith_mem {sep : List Char} {parts : List (List Char)} {c : Char} (h : c ∈ joinWith sep parts) :
    c ∈ sep ∨ ∃ part ∈ parts, c ∈ part := by
  induction parts with
  | nil => cases h
  | cons part parts ih =>
    by_cases hparts : parts = []
    · rw [hparts] at h
      exact .inr ⟨part, List.mem_cons_self, h⟩
    · rw [joinWith_cons sep part hparts, List.mem_append, List.mem_append] at h
      rcases h with (hpart | hsep) | hlater
      · exact .inr ⟨part, List.mem_cons_self, hpart⟩
      · exact .inl hsep
      · rcases ih hlater with hsep | hmem
        · exact .inl hsep
        · obtain ⟨other, hother, hc⟩ := hmem
          exact .inr ⟨other, List.mem_cons_of_mem _ hother, hc⟩

/-- The segments an absolute path keeps. -/
def keptSegments (path : List Char) : List (List Char) := ((splitOn '/' path).foldl (pushSegment false) []).reverse

theorem keptSegments_names (path : List Char) : ∀ segment ∈ keptSegments path, IsName segment ∧ ∀ c ∈ segment, c ∈ path := by
  have hall : ∀ (parts : List (List Char)), (∀ part ∈ parts, '/' ∉ part ∧ ∀ c ∈ part, c ∈ path) → ∀ kept : List (List Char),
      (∀ segment ∈ kept, IsName segment ∧ ∀ c ∈ segment, c ∈ path) →
      ∀ segment ∈ parts.foldl (pushSegment false) kept, IsName segment ∧ ∀ c ∈ segment, c ∈ path := by
    intro parts
    induction parts with
    | nil => exact fun _ kept hkept => hkept
    | cons part parts ih =>
      intro hparts kept hkept
      refine ih (fun other hother => hparts other (List.mem_cons_of_mem _ hother)) _ fun segment hsegment => ?_
      obtain ⟨hclear, hmem⟩ := hparts part List.mem_cons_self
      refine ⟨pushSegment_absolute (fun name hname => (hkept name hname).1) hclear segment hsegment, ?_⟩
      rcases pushSegment_mem hsegment with rfl | hsegment
      · exact hmem
      · exact (hkept segment hsegment).2
  intro segment hsegment
  refine hall (splitOn '/' path) (fun part hpart => ⟨splitOn_clear '/' path part hpart, fun c hc => splitOn_mem hpart hc⟩) []
    (fun _ h => absurd h List.not_mem_nil) segment (List.mem_reverse.mp hsegment)

theorem join_absolute {directory : String} (hdirectory : isAbsolute directory = true) {names : List String} (hne : names ≠ [])
    (hnames : ∀ name ∈ names, IsName name.toList) :
    join (directory :: names) =
      String.ofList ('/' :: joinWith ['/'] (keptSegments directory.toList ++ names.map String.toList)) := by
  have habsolute : directory.toList.head? = some '/' := beq_iff_eq.mp hdirectory
  have hfilter : (directory :: names).filter (· ≠ "") = directory :: names := by
    refine List.filter_eq_self.mpr fun part hpart => ?_
    rw [decide_eq_true_eq]
    intro hempty
    subst hempty
    rcases List.mem_cons.mp hpart with rfl | hpart
    · cases habsolute
    · exact (hnames _ hpart).1 rfl
  have hnonempty : names.map String.toList ≠ [] := fun h => hne (List.map_eq_nil_iff.mp h)
  have hchars : (joinStrings "/" (directory :: names)).toList = directory.toList ++ '/' :: joinWith ['/'] (names.map String.toList) := by
    rw [joinStrings, String.toList_ofList, List.map_cons, show "/".toList = ['/'] from rfl, joinWith_cons _ _ hnonempty, List.append_assoc,
      List.singleton_append]
  have hhead : (directory.toList ++ '/' :: joinWith ['/'] (names.map String.toList)).head? = some '/' := by
    rw [List.head?_append, habsolute]
    rfl
  have hlast : ((directory.toList ++ '/' :: joinWith ['/'] (names.map String.toList)).getLast? == some '/') = false := by
    obtain ⟨others, last, hparts⟩ := (List.eq_nil_or_concat names).resolve_left hne
    rw [List.concat_eq_append] at hparts
    have hname := hnames last (by rw [hparts]; simp)
    have hbefore : ∃ before, joinWith ['/'] (others.map String.toList ++ [last.toList]) = before ++ last.toList := by
      by_cases hothers : others.map String.toList = []
      · exact ⟨[], by rw [hothers]; rfl⟩
      · exact ⟨_, joinWith_concat ['/'] hothers last.toList⟩
    obtain ⟨before, hbefore⟩ := hbefore
    rw [hparts, List.map_append, List.map_cons, List.map_nil, hbefore, ← List.cons_append, ← List.append_assoc,
      List.getLast?_append, List.getLast?_eq_some_getLast hname.1, Option.some_or, beq_eq_false_iff_ne]
    intro h
    exact hname.2.2.2 (Option.some.inj h ▸ List.getLast_mem hname.1)
  have hkept : normalizeString false (directory.toList ++ '/' :: joinWith ['/'] (names.map String.toList)) =
      joinWith ['/'] (keptSegments directory.toList ++ names.map String.toList) := by
    have hclear : ∀ part ∈ names.map String.toList, IsName part := by
      intro part hpart
      obtain ⟨name, hname, rfl⟩ := List.mem_map.mp hpart
      exact hnames name hname
    rw [normalizeString, splitOn_append, splitOn_joinWith hnonempty fun part hpart => (hclear part hpart).2.2.2, List.foldl_append,
      pushSegment_names false hclear, List.reverse_append, List.reverse_reverse]
    rfl
  unfold join
  rw [hfilter]
  dsimp only
  unfold normalize
  dsimp only
  rw [hchars, if_neg (by simp), hhead, hlast]
  simp [hkept]

/-- A file below an absolute directory: what stands between the first separator and the last. -/
theorem join_absolute_file {directory : String} (hdirectory : isAbsolute directory = true) {folders : List String} {file : String}
    (hfolders : folders ≠ []) (hnames : ∀ name ∈ folders ++ [file], IsName name.toList) :
    ∃ middle, (join (directory :: (folders ++ [file]))).toList = '/' :: (middle ++ '/' :: file.toList) ∧
      ∀ c ∈ middle, c = '/' ∨ c ∈ directory.toList ∨ ∃ folder ∈ folders, c ∈ folder.toList := by
  have hkept : keptSegments directory.toList ++ folders.map String.toList ≠ [] := by simp [hfolders]
  refine ⟨joinWith ['/'] (keptSegments directory.toList ++ folders.map String.toList), ?_, fun c hc => ?_⟩
  · rw [join_absolute hdirectory (by simp) hnames, String.toList_ofList, List.map_append, List.map_cons, List.map_nil, ← List.append_assoc,
      joinWith_concat ['/'] hkept, List.append_assoc, List.singleton_append]
  · rcases joinWith_mem hc with hsep | hpart
    · exact .inl (List.mem_singleton.mp hsep)
    · obtain ⟨part, hpart, hc⟩ := hpart
      rcases List.mem_append.mp hpart with hpart | hpart
      · exact .inr (.inl ((keptSegments_names directory.toList part hpart).2 c hc))
      · obtain ⟨folder, hfolder, rfl⟩ := List.mem_map.mp hpart
        exact .inr (.inr ⟨folder, hfolder, hc⟩)

end GitCommitsPush.Lib.PosixPath
