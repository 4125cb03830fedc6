/-
  GitCommitsPush.Publication.PlanSelections — what `git add --literal-pathspecs` takes of the
  changed paths for the entries of a plan list (`executeMultiCommitAndPush`).

  Git reads an entry as a path from the repository's root and takes it and all below it. An
  absolute entry may come to the root by any directories that lead there, symbolic links
  among them. The guard of the publisher compares normalized texts, which for entries
  written from the same directory are equal when their paths are (`normalizePath_walk`); that
  one entry is a directory above the other it does not see. `selections_disjoint_iff` says
  when no changed path can be taken twice; `directory_takes_file` is a list that passes
  the guard.
-/

import GitCommitsPush.Publication.Publisher

namespace GitCommitsPush.Publication

open GitCommitsPush.Lib.JsText
open GitCommitsPush.Lib.PosixPath

/-! ## Pathspecs -/

/-- A path from the root of the repository, by its segments. -/
abbrev RepoPath := List (List Char)

/-- The segments after one more, innermost first; nothing above the first is left to go up to. -/
def enterSegment (kept : Option RepoPath) (segment : List Char) : Option RepoPath :=
  kept.bind fun kept =>
    if segment = [] ∨ segment = ['.'] then some kept
    else if segment = ['.', '.'] then match kept with
      | _ :: rest => some rest
      | [] => none
    else some (segment :: kept)

/-- The path that a text of segments leads to, if it does not go above where it starts. -/
def walk (text : List Char) : Option RepoPath := ((splitOn '/' text).foldl enterSegment (some [])).map List.reverse

def isAbsolute (entry : String) : Bool := entry.toList.head? == some '/'

/-- A working tree: the real path of its root, and where the directories of the file system
    really are; nowhere, if they are not there. -/
structure WorkTree where
  root : RepoPath
  realpath : RepoPath → Option RepoPath

namespace WorkTree

variable (tree : WorkTree)

/-- How many segments of an absolute path lead to the root: those of its own path, or the first
    that lead there by another way. -/
def leading (path : RepoPath) : Option Nat :=
  if tree.root.isPrefixOf path then some tree.root.length
  else (List.range' 1 path.length).find? fun n => tree.realpath (path.take n) = some tree.root

/-- Where an entry is written from, nothing for the root, and its path from there; Git refuses
    an entry outside of the repository. -/
def located (entry : String) : Option (Option RepoPath × RepoPath) :=
  if entry = "" then none
  else (walk entry.toList).bind fun path =>
    if isAbsolute entry then (tree.leading path).map fun n => (some (path.take n), path.drop n) else some (none, path)

/-- The path of an entry in the repository. -/
def pathspec (entry : String) : Option RepoPath := (tree.located entry).map (·.2)

end WorkTree

/-- Whether the entry ends as only a directory does. -/
def namesDirectory (entry : String) : Bool :=
  [[], ['.'], ['.', '.']].contains ((splitOn '/' entry.toList).getLastD [])

/-- The changed path is taken for the entry: it is the entry's, or below it. -/
def Takes (tree : WorkTree) (changed : List RepoPath) (entry : String) (path : RepoPath) : Prop :=
  path ∈ changed ∧ ∃ spec, tree.pathspec entry = some spec ∧ spec <+: path ∧ (namesDirectory entry = true → spec ≠ path)

/-- No changed path is taken for two entries, nor for entries of two plans. -/
structure DisjointSelections (tree : WorkTree) (changed : List RepoPath) (plans : List CommitPlan) : Prop where
  entries : (plans.flatMap (·.files)).Pairwise fun a b => ∀ path, ¬(Takes tree changed a path ∧ Takes tree changed b path)
  plans : plans.Pairwise fun p q => ∀ path, ¬((∃ a ∈ p.files, Takes tree changed a path) ∧
    ∃ b ∈ q.files, Takes tree changed b path)

/-- No entry is a directory above another, and none spells from one directory what another
    spells from another, the root of the repository or one that leads there. -/
def Unnested (tree : WorkTree) (plans : List CommitPlan) : Prop :=
  (plans.flatMap (·.files)).Pairwise fun a b => ∀ from₁ from₂ p q, tree.located a = some (from₁, p) →
    tree.located b = some (from₂, q) → p <+: q ∨ q <+: p → p = q ∧ from₁ = from₂

/-! ## What the guard compares -/

/-- A segment that stays: no slash, not empty, no dots. -/
def Kept (segment : List Char) : Prop := '/' ∉ segment ∧ segment ≠ [] ∧ segment ≠ ['.', '.']

theorem enterSegment_none (segments : List (List Char)) : segments.foldl enterSegment none = none := by
  induction segments with
  | nil => rfl
  | cons segment rest ih => exact ih

/-- While nothing goes above the start, Git and `normalize` keep the same segments. -/
theorem enterSegment_push (allowAboveRoot : Bool) {segments : List (List Char)} (hsep : ∀ s ∈ segments, '/' ∉ s)
    {kept path : RepoPath} (hkept : ∀ s ∈ kept, Kept s) (h : segments.foldl enterSegment (some kept) = some path) :
    segments.foldl (pushSegment allowAboveRoot) kept = path ∧ ∀ s ∈ path, Kept s := by
  induction segments generalizing kept with
  | nil =>
    cases h
    exact ⟨rfl, hkept⟩
  | cons segment rest ih =>
    have hrest := fun s hs => hsep s (List.mem_cons_of_mem segment hs)
    rw [List.foldl_cons] at h ⊢
    unfold enterSegment at h
    unfold pushSegment
    rw [Option.bind_some] at h
    by_cases hskip : segment = [] ∨ segment = ['.']
    · rw [if_pos hskip] at h ⊢
      exact ih hrest hkept h
    rw [if_neg hskip] at h ⊢
    by_cases hup : segment = ['.', '.']
    · rw [if_pos hup] at h ⊢
      cases kept with
      | nil =>
        change rest.foldl enterSegment none = some path at h
        rw [enterSegment_none] at h
        cases h
      | cons top kept =>
        dsimp only at h ⊢
        rw [if_neg (hkept top List.mem_cons_self).2.2]
        exact ih hrest (fun s hs => hkept s (List.mem_cons_of_mem top hs)) h
    · rw [if_neg hup] at h ⊢
      refine ih hrest (fun s hs => ?_) h
      rcases List.mem_cons.mp hs with hs | hs
      · exact hs ▸ ⟨hsep segment List.mem_cons_self, fun hnil => hskip (.inl hnil), hup⟩
      · exact hkept s hs

theorem splitOn_no_sep (sep : Char) (s : List Char) : ∀ p ∈ splitOn sep s, sep ∉ p := by
  induction s with
  | nil => simp [splitOn]
  | cons c s ih =>
    unfold splitOn
    by_cases hc : c = sep
    · rw [if_pos hc]
      simpa using ih
    · rw [if_neg hc]
      cases hparts : splitOn sep s with
      | nil => simpa using Ne.symm hc
      | cons p ps =>
        rw [hparts] at ih
        intro q hq
        rcases List.mem_cons.mp hq with hq | hq
        · rw [hq, List.mem_cons, not_or]
          exact ⟨Ne.symm hc, ih p List.mem_cons_self⟩
        · exact ih q (List.mem_cons_of_mem p hq)

/-- The text of segments that stay does not end in a slash. -/
theorem joinWith_last {path : RepoPath} (hne : path ≠ []) (h : ∀ s ∈ path, Kept s) :
    ∃ body c, joinWith ['/'] path = body ++ [c] ∧ c ≠ '/' := by
  induction path with
  | nil => exact absurd rfl hne
  | cons segment rest ih =>
    have hsegment := h segment List.mem_cons_self
    cases rest with
    | nil =>
      refine ⟨segment.dropLast, segment.getLast hsegment.2.1, (List.dropLast_concat_getLast hsegment.2.1).symm, fun hslash => ?_⟩
      exact hsegment.1 (hslash ▸ List.getLast_mem hsegment.2.1)
    | cons next rest =>
      obtain ⟨body, c, hbody, hc⟩ := ih (by simp) fun s hs => h s (List.mem_cons_of_mem segment hs)
      refine ⟨segment ++ ['/'] ++ body, c, ?_, hc⟩
      rw [joinWith, hbody, List.append_assoc _ body]
      simp

/-- The text of a path as the guard writes it: nothing for the root of the file system, a
    dot for that of the repository. -/
def pathText (absolute : Bool) (path : RepoPath) : String :=
  match absolute, path with
  | true, [] => ""
  | true, path => String.ofList ('/' :: joinWith ['/'] path)
  | false, [] => "."
  | false, path => String.ofList (joinWith ['/'] path)

/-- Trailing slashes go, and nothing else. -/
theorem strip_slashes (body : List Char) {c : Char} (hc : c ≠ '/') (slash : Bool) :
    ((body ++ [c] ++ (if slash then ['/'] else [])).reverse.dropWhile (· == '/')).reverse = body ++ [c] := by
  have hkeep : (body ++ [c]).reverse.dropWhile (· == '/') = (body ++ [c]).reverse := by
    rw [List.reverse_append]
    exact List.dropWhile_cons_of_neg (by simpa using hc)
  cases slash with
  | false => rw [if_neg (by decide), List.append_nil, hkeep, List.reverse_reverse]
  | true =>
    rw [if_pos rfl, List.reverse_append, List.reverse_singleton, List.singleton_append,
      List.dropWhile_cons_of_pos rfl, hkeep, List.reverse_reverse]

/-- What the guard compares is the path. -/
theorem normalizePath_walk {path : RepoPath} {entry : String} (hne : entry ≠ "") (h : walk entry.toList = some path) :
    normalizePath entry = pathText (isAbsolute entry) path := by
  obtain ⟨kept, hfold, hpath⟩ := Option.map_eq_some_iff.mp h
  have hchars : entry.toList ≠ [] := fun hnil => hne (String.toList_inj.mp hnil)
  have hbody : ∀ allowAboveRoot, normalizeString allowAboveRoot entry.toList = joinWith ['/'] path := by
    intro allowAboveRoot
    obtain ⟨hpushed, _⟩ := enterSegment_push allowAboveRoot (splitOn_no_sep '/' _) (by simp) hfold
    rw [normalizeString, hpushed, hpath]
  have hstays : ∀ s ∈ path, Kept s := by
    intro s hs
    obtain ⟨_, hkept⟩ := enterSegment_push true (splitOn_no_sep '/' _) (by simp) hfold
    exact hkept s (List.mem_reverse.mp (hpath ▸ hs))
  unfold normalizePath Lib.PosixPath.normalize
  dsimp only
  rw [if_neg hchars, hbody, String.toList_ofList]
  show _ = pathText (entry.toList.head? == some '/') path
  generalize (entry.toList.getLast? == some '/') = slash
  by_cases hnil : path = []
  · subst hnil
    cases entry.toList.head? == some '/' <;> cases slash <;> rfl
  · obtain ⟨body, c, hjoin, hc⟩ := joinWith_last hnil hstays
    have hcongr : ∀ text kept : List Char, text = kept → (text.reverse.dropWhile (· == '/')).reverse =
        (kept.reverse.dropWhile (· == '/')).reverse := fun _ _ heq => by rw [heq]
    have htext : ∀ absolute, pathText absolute path =
        String.ofList ((if absolute then ['/'] else []) ++ joinWith ['/'] path) := by
      intro absolute
      cases path with
      | nil => exact absurd rfl hnil
      | cons segment rest => cases absolute <;> rfl
    rw [htext, hjoin]
    refine congrArg String.ofList ?_
    cases entry.toList.head? == some '/' with
    | true => exact (hcongr _ _ (by cases slash <;> simp)).trans (strip_slashes ('/' :: body) hc slash)
    | false => exact (hcongr _ _ (by cases slash <;> simp)).trans (strip_slashes body hc slash)

theorem normalizePath_located {tree : WorkTree} {entry : String} {directory : Option RepoPath} {p : RepoPath}
    (h : tree.located entry = some (directory, p)) :
    normalizePath entry = pathText directory.isSome (directory.getD [] ++ p) := by
  unfold WorkTree.located at h
  by_cases hempty : entry = ""
  · rw [if_pos hempty] at h
    cases h
  rw [if_neg hempty] at h
  obtain ⟨path, hwalk, hplace⟩ := Option.bind_eq_some_iff.mp h
  rw [normalizePath_walk hempty hwalk]
  cases habsolute : isAbsolute entry with
  | true =>
    rw [habsolute, if_pos rfl] at hplace
    obtain ⟨n, -, hsplit⟩ := Option.map_eq_some_iff.mp hplace
    cases hsplit
    rw [Option.isSome_some, Option.getD_some, List.take_append_drop]
  | false =>
    rw [habsolute, if_neg Bool.false_ne_true] at hplace
    cases hplace
    rfl

/-- No two entries of one path pass the guard, if they are written from one directory. -/
theorem guard_distinct {tree : WorkTree} {files : List String} (hguard : firstDuplicate [] files = none) :
    files.Pairwise fun a b => ∀ from₁ from₂ p q, tree.located a = some (from₁, p) → tree.located b = some (from₂, q) →
      ¬(p = q ∧ from₁ = from₂) := by
  have hdistinct := List.pairwise_map.mp (firstDuplicate_none [] files hguard).1
  refine hdistinct.imp fun {a b} hne from₁ from₂ p q hp hq hsame => hne ?_
  rw [normalizePath_located hp, normalizePath_located hq, hsame.1, hsame.2]

/-! ## Disjointness -/

section Disjoint

variable {tree : WorkTree} {changed : List RepoPath}

theorem takes_common {a b : String} {path : RepoPath} (ha : Takes tree changed a path) (hb : Takes tree changed b path) :
    ∃ from₁ from₂ p q, tree.located a = some (from₁, p) ∧ tree.located b = some (from₂, q) ∧ (p <+: q ∨ q <+: p) := by
  obtain ⟨_, p, hp, hpath, _⟩ := ha
  obtain ⟨_, q, hq, hqath, _⟩ := hb
  obtain ⟨⟨from₁, _⟩, hlocated, rfl⟩ := Option.map_eq_some_iff.mp hp
  obtain ⟨⟨from₂, _⟩, hlocatedb, rfl⟩ := Option.map_eq_some_iff.mp hq
  exact ⟨from₁, from₂, _, _, hlocated, hlocatedb, List.prefix_or_prefix_of_prefix hpath hqath⟩

/-- A file below both is taken for both. -/
theorem takes_below {a b : String} {p q : RepoPath} (ha : tree.pathspec a = some p) (hb : tree.pathspec b = some q)
    (h : p <+: q) : Takes tree [q ++ [['x']]] a (q ++ [['x']]) ∧ Takes tree [q ++ [['x']]] b (q ++ [['x']]) := by
  have hlonger : q ++ [['x']] ≠ q := by simp
  refine ⟨⟨List.mem_singleton_self _, p, ha, h.trans (List.prefix_append q _), fun _ heq => ?_⟩,
    ⟨List.mem_singleton_self _, q, hb, List.prefix_append q _, fun _ heq => hlonger heq.symm⟩⟩
  have hlength := h.length_le
  rw [heq, List.length_append, List.length_singleton] at hlength
  omega

theorem disjoint_plans {plans : List CommitPlan}
    (h : (plans.flatMap (·.files)).Pairwise fun a b => ∀ path, ¬(Takes tree changed a path ∧ Takes tree changed b path)) :
    plans.Pairwise fun p q => ∀ path, ¬((∃ a ∈ p.files, Takes tree changed a path) ∧
      ∃ b ∈ q.files, Takes tree changed b path) := by
  rw [List.pairwise_flatMap] at h
  refine h.2.imp fun {p q} hpq path hboth => ?_
  obtain ⟨⟨a, ha, htakes⟩, b, hb, htakesb⟩ := hboth
  exact hpq a ha b hb path ⟨htakes, htakesb⟩

/-- For which plan lists that pass the guard no working tree has a path taken twice. -/
theorem selections_disjoint_iff (tree : WorkTree) (plans : List CommitPlan)
    (hguard : firstDuplicate [] (plans.flatMap (·.files)) = none) :
    (∀ changed, DisjointSelections tree changed plans) ↔ Unnested tree plans := by
  unfold Unnested
  constructor
  · intro hdisjoint
    rw [List.pairwise_iff_forall_sublist]
    intro a b hsub from₁ from₂ p q hp hq hnested
    have hp := congrArg (Option.map (·.2)) hp
    have hq := congrArg (Option.map (·.2)) hq
    have hnone : ∀ changed path, ¬(Takes tree changed a path ∧ Takes tree changed b path) := fun changed =>
      List.pairwise_iff_forall_sublist.mp (hdisjoint changed).entries hsub
    rcases hnested with hnested | hnested
    · exact absurd (takes_below hp hq hnested) (hnone _ _)
    · exact absurd (takes_below hq hp hnested).symm (hnone _ _)
  · intro hunnested changed
    have hentries : (plans.flatMap (·.files)).Pairwise fun a b =>
        ∀ path, ¬(Takes tree changed a path ∧ Takes tree changed b path) := by
      refine (hunnested.and (@guard_distinct tree _ hguard)).imp fun {a b} hab path hboth => ?_
      obtain ⟨from₁, from₂, p, q, hp, hq, hnested⟩ := takes_common hboth.1 hboth.2
      exact hab.2 from₁ from₂ p q hp hq (hab.1 from₁ from₂ p q hp hq hnested)
    exact ⟨hentries, disjoint_plans hentries⟩

end Disjoint

/-! ## A directory and a file of it -/

def samplePlans (files : List (List String)) : List CommitPlan :=
  files.map fun files => ⟨⟨"feat", none, "add the parser", none, false⟩, files⟩

/-- A repository at `/w`, where `/link` leads too. -/
def sampleTree : WorkTree where
  root := [['w']]
  realpath path := some (if path.head? = some "link".toList then ['w'] :: path.tail else path)

theorem separate_files : DisjointSelections sampleTree [["src".toList, "a.ts".toList], ["c.ts".toList]]
    (samplePlans [["src/a.ts"], ["/link/c.ts"]]) := by
  refine (selections_disjoint_iff sampleTree (samplePlans [["src/a.ts"], ["/link/c.ts"]]) (by decide)).mpr ?_ _
  refine List.pairwise_pair.mpr fun from₁ from₂ p q hp hq hnested => ?_
  have hsource : sampleTree.located "src/a.ts" = some (none, ["src".toList, "a.ts".toList]) := by decide
  have hother : sampleTree.located "/link/c.ts" = some (some ["link".toList], ["c.ts".toList]) := by decide
  cases hsource.symm.trans hp
  cases hother.symm.trans hq
  revert hnested
  decide

/-- The first plan takes the file that the second names. -/
theorem directory_takes_file :
    firstDuplicate [] ((samplePlans [["src"], ["src/a.ts"]]).flatMap (·.files)) = none ∧
      ¬DisjointSelections sampleTree [["src".toList, "a.ts".toList]] (samplePlans [["src"], ["src/a.ts"]]) := by
  refine ⟨by decide, fun hdisjoint => ?_⟩
  have hpair := List.pairwise_pair.mp hdisjoint.entries ["src".toList, "a.ts".toList]
  refine hpair ⟨⟨List.mem_singleton_self _, ["src".toList], by decide, ⟨["a.ts".toList], rfl⟩, fun _ => by decide⟩,
    List.mem_singleton_self _, ["src".toList, "a.ts".toList], by decide, List.prefix_refl _, fun hends => ?_⟩
  exact absurd hends (by decide)

end GitCommitsPush.Publication
