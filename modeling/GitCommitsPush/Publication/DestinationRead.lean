/-
  GitCommitsPush.Publication.DestinationRead — the reads of a destination ref
  (`git/push-endpoint.ts`) against a remote with many refs.

  `ls-remote` takes its argument as the end of a name: it prints every ref that is it or
  ends in it after a slash, in ref order. The reader takes the first word, so a ref that
  ends in the destination's name may stand for it. `reads_exactly_iff` says when none
  does; `shadowed_destination` is a branch that does.
-/

import GitCommitsPush.Publication.ObjectId
import GitCommitsPush.Publication.Push

namespace GitCommitsPush.Publication

open GitCommitsPush.Lib.Effect
open GitCommitsPush.Lib.JsText

/-! ## The remote -/

structure RemoteRef where
  name : String
  id : ObjectId

/-- The refs of a remote in ref order; no two have a name. -/
structure AdvertisedRefs where
  refs : List RemoteRef
  ordered : refs.Pairwise (·.name < ·.name)

/-- Whether the pattern is the ref's name or the end of it after a slash. -/
def selects (pattern name : String) : Bool := name == pattern || endsWith name ("/" ++ pattern)

namespace AdvertisedRefs

variable (advertised : AdvertisedRefs)

def lookup (name : String) : Option ObjectId := (advertised.refs.find? (·.name == name)).map (·.id)

def selected (pattern : String) : List RemoteRef := advertised.refs.filter fun r => selects pattern r.name

/-- What `git ls-remote` prints. -/
def lsRemote (pattern : String) : String :=
  String.ofList ((advertised.selected pattern).flatMap fun r => r.id.text.toList ++ '\t' :: (r.name.toList ++ ['\n']))

/-- The first in ref order of the refs the name selects, if there is one, has the id that
    the ref of that name has. -/
def Unshadowed (name : String) : Prop :=
  ∀ r ∈ advertised.refs, selects name r.name = true →
    (∀ other ∈ advertised.refs, selects name other.name = true → ¬other.name < r.name) →
    ∃ d ∈ advertised.refs, d.name = name ∧ d.id = r.id

variable {advertised}

theorem mem_selected {pattern : String} {r : RemoteRef} :
    r ∈ advertised.selected pattern ↔ r ∈ advertised.refs ∧ selects pattern r.name = true := List.mem_filter

/-- The first line is of the least ref. -/
theorem selected_head {pattern : String} {r : RemoteRef} {rest : List RemoteRef}
    (h : advertised.selected pattern = r :: rest) (other : RemoteRef) (hmem : other ∈ advertised.refs)
    (hselects : selects pattern other.name = true) : ¬other.name < r.name := by
  have hpairs : (r :: rest).Pairwise (·.name < ·.name) := h ▸ advertised.ordered.filter _
  have hlisted : other ∈ r :: rest := h ▸ mem_selected.mpr ⟨hmem, hselects⟩
  rcases List.mem_cons.mp hlisted with heq | hrest
  · rw [heq]
    exact String.lt_irrefl _
  · exact String.lt_asymm ((List.pairwise_cons.mp hpairs).1 other hrest)

theorem lookup_eq_some {name : String} {id : ObjectId} :
    advertised.lookup name = some id ↔ ∃ r ∈ advertised.refs, r.name = name ∧ r.id = id := by
  obtain ⟨refs, hordered⟩ := advertised
  unfold lookup
  dsimp only
  induction refs with
  | nil => simp
  | cons r rest ih =>
    obtain ⟨hlater, hrest⟩ := List.pairwise_cons.mp hordered
    by_cases hname : r.name = name
    · have hnone : ∀ other ∈ rest, other.name ≠ name := by
        intro other hother heq
        have hlt := hlater other hother
        rw [hname, heq] at hlt
        exact String.lt_irrefl _ hlt
      simp only [List.find?_cons, beq_iff_eq.mpr hname, Option.map_some, Option.some.injEq]
      constructor
      · intro hid
        exact ⟨r, List.mem_cons_self, hname, hid⟩
      · intro hfound
        obtain ⟨d, hd, hdname, hid⟩ := hfound
        rcases List.mem_cons.mp hd with hd | hd
        · rw [← hd, hid]
        · exact absurd hdname (hnone d hd)
    · simp only [List.find?_cons, beq_eq_false_iff_ne.mpr hname]
      rw [ih hrest]
      constructor
      · intro hfound
        obtain ⟨d, hd, hdname, hid⟩ := hfound
        exact ⟨d, List.mem_cons_of_mem r hd, hdname, hid⟩
      · intro hfound
        obtain ⟨d, hd, hdname, hid⟩ := hfound
        rcases List.mem_cons.mp hd with hd | hd
        · exact absurd (hd ▸ hdname) hname
        · exact ⟨d, hd, hdname, hid⟩

theorem lookup_eq_none {name : String} : advertised.lookup name = none ↔ ∀ r ∈ advertised.refs, r.name ≠ name := by
  simp [lookup]

/-- What the first line tells. -/
def firstListed (advertised : AdvertisedRefs) (pattern : String) : Option ObjectId :=
  (advertised.selected pattern).head?.map (·.id)

theorem unshadowed_iff {name : String} :
    advertised.Unshadowed name ↔ advertised.firstListed name = advertised.lookup name := by
  unfold firstListed
  constructor
  · intro hunshadowed
    cases hselected : advertised.selected name with
    | nil =>
      refine (lookup_eq_none.mpr fun r hr hname => ?_).symm
      have hr : r ∈ advertised.selected name := mem_selected.mpr ⟨hr, by rw [selects, hname, beq_self_eq_true]; rfl⟩
      rw [hselected] at hr
      cases hr
    | cons r rest =>
      obtain ⟨hr, hselects⟩ := mem_selected.mp (hselected ▸ List.mem_cons_self : r ∈ advertised.selected name)
      exact (lookup_eq_some.mpr (hunshadowed r hr hselects (selected_head hselected))).symm
  · intro hfirst r hr hselects hleast
    cases hselected : advertised.selected name with
    | nil =>
      have hlisted := mem_selected.mpr ⟨hr, hselects⟩
      rw [hselected] at hlisted
      cases hlisted
    | cons first rest =>
      have hpairs : (first :: rest).Pairwise (·.name < ·.name) := hselected ▸ advertised.ordered.filter _
      have hlisted : r ∈ first :: rest := hselected ▸ mem_selected.mpr ⟨hr, hselects⟩
      obtain ⟨hmem, hchosen⟩ := mem_selected.mp (hselected ▸ List.mem_cons_self : first ∈ advertised.selected name)
      rcases List.mem_cons.mp hlisted with heq | hrest
      · rw [hselected] at hfirst
        rw [heq]
        exact lookup_eq_some.mp hfirst.symm
      · exact absurd ((List.pairwise_cons.mp hpairs).1 r hrest) (hleast first hmem hchosen)

end AdvertisedRefs

/-! ## The reads -/

section Reads

variable {σ : Type} {host : Host σ} {pushEndpoint : ResolvedPushEndpoint} {advertised : AdvertisedRefs}

/-- `git ls-remote` over the endpoint lists the refs of the remote. -/
def ListsRefs (host : Host σ) (pushEndpoint : ResolvedPushEndpoint) (advertised : AdvertisedRefs) : Prop :=
  ∀ pattern s, ((host.execFileGit pushEndpoint.repoPath ["ls-remote", "--", pushEndpoint.ephemeralRemote, pattern]
    pushEndpoint.processConfig).run s).1 = .ok (advertised.lsRemote pattern)

/-- Either read gives the object id of the ref itself; where there is none, the one gives
    null and the other throws. -/
structure ReadsExactly (host : Host σ) (pushEndpoint : ResolvedPushEndpoint) (advertised : AdvertisedRefs)
    (destinationRef : String) (s : σ) : Prop where
  optional : ((pushEndpoint.readOptionalDestinationSha host destinationRef).run s).1 =
    .ok ((advertised.lookup destinationRef).map ObjectId.text)
  required : advertised.lookup destinationRef = none →
    ∃ error, ((pushEndpoint.readDestinationSha host destinationRef).run s).1 = .error error

/-- The first word that is printed. -/
theorem lsRemote_read (advertised : AdvertisedRefs) (name : String) :
    nonEmpty (String.ofList ((trimString (advertised.lsRemote name)).toList.takeWhile fun c => !isSpace c)) =
      (advertised.firstListed name).map ObjectId.text := by
  unfold AdvertisedRefs.lsRemote AdvertisedRefs.firstListed
  cases advertised.selected name with
  | nil => rfl
  | cons r rest =>
    rw [List.flatMap_cons, List.append_assoc, List.cons_append, r.id.listed _ fun c hc => by cases hc; decide]
    rw [nonEmpty, if_neg r.id.ne_empty]
    rfl

theorem readOptional_eq (h : ListsRefs host pushEndpoint advertised) (destinationRef : String) (s : σ) :
    ((pushEndpoint.readOptionalDestinationSha host destinationRef).run s).1 =
      .ok ((advertised.firstListed destinationRef).map ObjectId.text) := by
  have hls := h destinationRef s
  unfold ResolvedPushEndpoint.readOptionalDestinationSha Host.gitExecArgsWith
  rw [Action.run_bind, Action.run_bind]
  cases hrun : (host.execFileGit pushEndpoint.repoPath ["ls-remote", "--", pushEndpoint.ephemeralRemote, destinationRef]
      pushEndpoint.processConfig).run s with
  | mk r t =>
    rw [hrun] at hls
    subst hls
    dsimp only [Action.run_pure]
    exact congrArg Except.ok (lsRemote_read advertised destinationRef)

/-- For which remotes a destination is read exactly. -/
theorem reads_exactly_iff (h : ListsRefs host pushEndpoint advertised) (destinationRef : String) (s : σ) :
    ReadsExactly host pushEndpoint advertised destinationRef s ↔ advertised.Unshadowed destinationRef := by
  rw [AdvertisedRefs.unshadowed_iff]
  have hread := readOptional_eq h destinationRef s
  constructor
  · intro hexact
    have hsame := hread.symm.trans hexact.optional
    exact ObjectId.map_text_inj (Except.ok.inj hsame)
  · intro hsame
    rw [hsame] at hread
    refine ⟨hread, fun hnone => ?_⟩
    rw [hnone] at hread
    unfold ResolvedPushEndpoint.readDestinationSha
    rw [Action.run_bind]
    cases hrun : (pushEndpoint.readOptionalDestinationSha host destinationRef).run s with
    | mk r t =>
      rw [hrun] at hread
      subst hread
      exact ⟨_, rfl⟩

end Reads

/-! ## A branch that ends in the destination's name -/

/-- A host whose only command is `ls-remote`. -/
def listingHost (advertised : AdvertisedRefs) : Host Unit where
  sha256 text := text
  localeCompare _ _ := 0
  execSync _ _ := .throw (plainError "Command failed")
  execFileGit _ args _ := match args with
    | ["ls-remote", "--", _, pattern] => pure (advertised.lsRemote pattern)
    | _ => .throw (plainError "Command failed: git")
  writeMessage _ _ := .throw (plainError "EROFS")
  pathExists _ _ := .throw (plainError "EIO")
  randomUUID := .throw (plainError "EAGAIN")
  runTestCascade _ := .throw (plainError "no tests")

theorem listingHost_lists (pushEndpoint : ResolvedPushEndpoint) (advertised : AdvertisedRefs) :
    ListsRefs (listingHost advertised) pushEndpoint advertised := fun _ _ => rfl

def pinnedEndpoint : ResolvedPushEndpoint := ⟨"", "gcp-endpoint-1", [], "/repo"⟩

def mainOnly : AdvertisedRefs := ⟨[⟨"refs/heads/main", .ones⟩], by decide⟩

theorem mainOnly_read : ReadsExactly (listingHost mainOnly) pinnedEndpoint mainOnly "refs/heads/main" () := by
  refine (reads_exactly_iff (listingHost_lists _ _) "refs/heads/main" ()).mpr ?_
  intro r hr _ _
  cases List.mem_singleton.mp hr
  exact ⟨_, hr, rfl, rfl⟩

/-- A branch `a/refs/heads/main` is listed before `main`. -/
def shadowing : AdvertisedRefs :=
  ⟨[⟨"refs/heads/a/refs/heads/main", .ones⟩, ⟨"refs/heads/main", .twos⟩], by decide⟩

theorem shadowed_destination : ListsRefs (listingHost shadowing) pinnedEndpoint shadowing ∧
    shadowing.lookup "refs/heads/main" = some .twos ∧
    ((pinnedEndpoint.readOptionalDestinationSha (listingHost shadowing) "refs/heads/main").run ()).1 =
      .ok (some ObjectId.ones.text) ∧
    ¬ReadsExactly (listingHost shadowing) pinnedEndpoint shadowing "refs/heads/main" () := by
  have hlists := listingHost_lists pinnedEndpoint shadowing
  have hread := readOptional_eq hlists "refs/heads/main" ()
  have hfirst : shadowing.firstListed "refs/heads/main" = some .ones := by decide +kernel
  have hlookup : shadowing.lookup "refs/heads/main" = some .twos := by decide +kernel
  rw [hfirst] at hread
  refine ⟨hlists, hlookup, hread, fun hexact => ?_⟩
  have hother := hexact.optional
  rw [hread, hlookup] at hother
  exact absurd hother (by simp [ObjectId.ones, ObjectId.twos, ObjectId.repeated])

end GitCommitsPush.Publication
