/-
  GitCommitsPush.Installation.CrashConsistency — an installation stopped at any moment.

  `Sound`: against the files before, a release directory is untouched or newly and completely
  built, `current` is untouched or names a release whose digest was verified, the public
  executable is untouched or newly made. Each step keeps it: staging and temporary names are
  none of these (`Sound.put`), the rename of a staging directory comes after its digest, the
  rename onto `current` after the release is checked.
  `installation_crash_consistent`: `current` and the public executable resolve at every moment.
-/

import GitCommitsPush.Installation.StandaloneInstaller

namespace GitCommitsPush.Installation

open GitCommitsPush.Lib.Effect
open GitCommitsPush.Lib.Interruption
open GitCommitsPush.Lib.JsText

/-! ## Names -/

theorem splitOn_mem {sep c : Char} {chars : List Char} (hc : c ∈ chars) (hne : c ≠ sep) : ∃ part ∈ splitOn sep chars, c ∈ part := by
  induction chars with
  | nil => exact absurd hc List.not_mem_nil
  | cons d chars ih =>
    unfold splitOn
    by_cases hd : d = sep
    · rcases List.mem_cons.mp hc with rfl | hc
      · exact absurd hd hne
      · obtain ⟨part, hpart, hmem⟩ := ih hc
        rw [if_pos hd]
        exact ⟨part, List.mem_cons_of_mem _ hpart, hmem⟩
    · rw [if_neg hd]
      cases hsplit : splitOn sep chars with
      | nil => exact absurd hsplit (splitOn_ne_nil sep chars)
      | cons first parts =>
        rcases List.mem_cons.mp hc with rfl | hc
        · exact ⟨c :: first, List.mem_cons_self, List.mem_cons_self⟩
        · rw [hsplit] at ih
          obtain ⟨part, hpart, hmem⟩ := ih hc
          rcases List.mem_cons.mp hpart with rfl | hpart
          · exact ⟨d :: part, List.mem_cons_self, List.mem_cons_of_mem d hmem⟩
          · exact ⟨part, List.mem_cons_of_mem _ hpart, hmem⟩

theorem hyphen_not_mem_numeral {chars : List Char} (h : isNumeral chars = true) : '-' ∉ chars := by
  cases chars with
  | nil => exact List.not_mem_nil
  | cons first rest =>
    unfold isNumeral at h
    dsimp only at h
    by_cases hzero : first = '0'
    · rw [if_pos hzero, decide_eq_true_eq] at h
      rw [hzero, h]
      decide
    · rw [if_neg hzero, Bool.and_eq_true] at h
      intro hmem
      rcases List.mem_cons.mp hmem with rfl | hmem
      · exact absurd h.1 (by decide)
      · exact absurd (List.all_eq_true.mp h.2 '-' hmem) (by decide)

theorem hyphen_not_mem_version {chars : List Char} (h : isPackageVersion chars = true) : '-' ∉ chars := by
  intro hmem
  obtain ⟨part, hpart, hyphen⟩ := splitOn_mem hmem (show '-' ≠ '.' by decide)
  unfold isPackageVersion at h
  split at h
  · rename_i major minor patch hsplit
    rw [Bool.and_eq_true, Bool.and_eq_true] at h
    rw [hsplit] at hpart
    simp only [List.mem_cons, List.not_mem_nil, or_false] at hpart
    rcases hpart with rfl | rfl | rfl
    · exact hyphen_not_mem_numeral h.1.1 hyphen
    · exact hyphen_not_mem_numeral h.1.2 hyphen
    · exact hyphen_not_mem_numeral h.2 hyphen
  · cases h

/-- What is created is a release name. -/
theorem createStandaloneReleaseName_eq_ok {version digest name : String} (h : createStandaloneReleaseName version digest = .ok name) :
    isPackageVersion version.toList = true ∧ name = version ++ "-" ++ digest ∧ isStandaloneReleaseName name = true := by
  unfold createStandaloneReleaseName requireStandalonePackageVersion at h
  by_cases hversion : isPackageVersion version.toList = true
  · by_cases hdigest : isLowerHex 64 digest.toList = true
    · simp only [hversion, hdigest, if_true, bind, Except.bind, pure, Except.pure, Bool.true_eq_false, if_false,
        Except.ok.injEq] at h
      subst h
      have hhyphen : '-' ∉ digest.toList := by
        intro hmem
        unfold isLowerHex at hdigest
        rw [Bool.and_eq_true] at hdigest
        exact absurd (List.all_eq_true.mp hdigest.2 '-' hmem) (by decide)
      have hchars : (version ++ "-" ++ digest).toList = version.toList ++ '-' :: digest.toList := by
        rw [String.toList_append, String.toList_append, List.append_assoc]
        rfl
      refine ⟨hversion, rfl, ?_⟩
      unfold isStandaloneReleaseName
      rw [hchars, splitOn_append_sep (hyphen_not_mem_version hversion), splitOn_eq_singleton hhyphen]
      simp [hversion, hdigest]
    · rw [Bool.not_eq_true] at hdigest
      simp [hversion, hdigest, bind, Except.bind] at h
  · simp [hversion, bind, Except.bind] at h

/-- The name of a staging directory is not a release name. -/
theorem staging_not_release {name : String} (h : startsWith name ".staging-" = true) : isStandaloneReleaseName name = false := by
  obtain ⟨rest, hrest⟩ := List.isPrefixOf_iff_prefix.mp h
  have hchars : name.toList = ".staging".toList ++ '-' :: rest := by
    rw [← hrest, show ".staging-".toList = ".staging".toList ++ ['-'] by decide, List.append_assoc]
    rfl
  unfold isStandaloneReleaseName
  rw [hchars, splitOn_append_sep (by decide)]
  cases splitOn '-' rest with
  | nil => rfl
  | cons digest parts =>
    cases parts with
    | nil => rfl
    | cons _ _ => rfl

/-! ## What an installation leaves -/

def CurrentNames (files : FileSystem) (name : String) : Prop :=
  ∃ mode, files .application "current" = some (.symlink mode ("releases/" ++ name))

theorem CurrentNames.unique {files : FileSystem} {name name' : String} (h : CurrentNames files name)
    (h' : CurrentNames files name') : name = name' := by
  obtain ⟨mode, hlink⟩ := h
  obtain ⟨mode', hlink'⟩ := h'
  have htarget := (Node.symlink.inj (Option.some.inj (hlink.symm.trans hlink'))).2
  have hchars := congrArg String.toList htarget
  rw [String.toList_append, String.toList_append] at hchars
  exact String.toList_inj.mp (List.append_cancel_left hchars)

section Releases

variable (host : InstallHost) (paths : StandaloneInstallPaths)

/-- The name of the release is its version and the digest its tree has. -/
def Verified (name : String) (node : Node) : Prop :=
  ∃ version digest, isPackageVersion version.toList = true ∧ name = version ++ "-" ++ digest ∧
    ∃ realpath rootDirectory, digestReleaseTree host.sha256 realpath rootDirectory node = .ok digest

def HasExecutable (node : Node) : Prop := isFile (host.lstatIn node "bin/git-commits-push.mjs") = true

/-- The release a whole build made. -/
structure Built (name : String) (node : Node) : Prop where
  verified : Verified host name node
  complete : ∀ relativePath ∈ requiredReleaseFiles, isFile (host.lstatIn node relativePath) = true

/-- `current` names a release that is there. -/
structure CurrentResolves (files : FileSystem) (name : String) : Prop where
  link : CurrentNames files name
  named : isStandaloneReleaseName name = true
  release : ∃ mode children, files .releases name = some (.directory mode children)

def ManagedPublic (files : FileSystem) : Prop :=
  ∃ mode, files .bin "git-commits-push" = some (.symlink mode paths.expectedTarget)

/-- The public executable leads through `current` to a file. -/
def PublicResolves (files : FileSystem) : Prop :=
  ManagedPublic paths files ∧ ∃ name node, CurrentNames files name ∧ files .releases name = some node ∧ HasExecutable host node

/-- What the files at some moment of an installation have of those before it. -/
structure Sound (init files : FileSystem) : Prop where
  releases : ∀ name, isStandaloneReleaseName name = true → files .releases name = init .releases name ∨
    init .releases name = none ∧ ∃ node, files .releases name = some node ∧ Built host name node
  current : files .application "current" = init .application "current" ∨
    ∃ name node, CurrentNames files name ∧ isStandaloneReleaseName name = true ∧ files .releases name = some node ∧
      Verified host name node ∧ HasExecutable host node
  publicExecutable : files .bin "git-commits-push" = init .bin "git-commits-push" ∨
    init .bin "git-commits-push" = none ∧ ManagedPublic paths files

/-- The claim of one moment. -/
structure Consistent (init files : FileSystem) : Prop where
  /-- `current` resolves, to the release it named, unchanged, or to one of verified digest. -/
  current : ∃ name, CurrentResolves files name ∧
    (CurrentNames init name ∧ files .releases name = init .releases name ∨
      ∃ node, files .releases name = some node ∧ Verified host name node)
  /-- A release directory is what it was or the work of a whole build. -/
  releases : ∀ name, isStandaloneReleaseName name = true → files .releases name = init .releases name ∨
    ∃ node, files .releases name = some node ∧ Built host name node
  /-- So none holds a partial tree, when none did. -/
  noPartial : (∀ name node, isStandaloneReleaseName name = true → init .releases name = some node → Verified host name node) →
    ∀ name node, isStandaloneReleaseName name = true → files .releases name = some node → Verified host name node
  publicExecutable : PublicResolves host paths init → PublicResolves host paths files

variable {host paths} {init files : FileSystem}

theorem Sound.refl (init : FileSystem) : Sound host paths init init := ⟨fun _ _ => .inl rfl, .inl rfl, .inl rfl⟩

theorem Verified.directory {name : String} {node : Node} (h : Verified host name node) :
    ∃ mode children, node = .directory mode children := by
  obtain ⟨version, digest, -, -, realpath, rootDirectory, hdigest⟩ := h
  unfold digestReleaseTree at hdigest
  cases hcollect : collectReleaseTreeEntries realpath rootDirectory node with
  | error message => rw [hcollect] at hdigest; cases hdigest
  | ok entries =>
    obtain ⟨mode, children, hnode, -⟩ := collect_listing hcollect
    exact ⟨mode, children, hnode⟩

theorem Sound.consistent {name : String} (hvalid : CurrentResolves init name) (h : Sound host paths init files) :
    Consistent host paths init files := by
  have hkept : files .releases name = init .releases name := by
    rcases h.releases name hvalid.named with hsame | hnew
    · exact hsame
    · obtain ⟨mode, children, hrelease⟩ := hvalid.release
      rw [hrelease] at hnew
      cases hnew.1
  refine ⟨?_, ?_, ?_, ?_⟩
  · rcases h.current with hsame | hnew
    · refine ⟨name, ⟨?_, hvalid.named, ?_⟩, .inl ⟨hvalid.link, hkept⟩⟩
      · unfold CurrentNames
        rw [hsame]
        exact hvalid.link
      · rw [hkept]
        exact hvalid.release
    · obtain ⟨name', node, hlink, hnamed, hnode, hverified, -⟩ := hnew
      obtain ⟨mode, children, rfl⟩ := hverified.directory
      exact ⟨name', ⟨hlink, hnamed, mode, children, hnode⟩, .inr ⟨_, hnode, hverified⟩⟩
  · exact fun name hnamed => (h.releases name hnamed).imp id And.right
  · intro hinit name node hnamed hnode
    rcases h.releases name hnamed with hsame | hnew
    · exact hinit name node hnamed (hsame ▸ hnode)
    · obtain ⟨-, node', hnode', hbuilt⟩ := hnew
      rw [hnode] at hnode'
      cases hnode'
      exact hbuilt.verified
  · intro hpublic
    obtain ⟨⟨mode, hlink⟩, name', node, hcurrent, hnode, hexecutable⟩ := hpublic
    have hmanaged : ManagedPublic paths files := by
      rcases h.publicExecutable with hsame | hnew
      · exact ⟨mode, hsame ▸ hlink⟩
      · exact hnew.2
    refine ⟨hmanaged, ?_⟩
    rcases h.current with hsame | hnew
    · cases hcurrent.unique hvalid.link
      refine ⟨name, node, ?_, by rw [hkept]; exact hnode, hexecutable⟩
      unfold CurrentNames
      rw [hsame]
      exact hcurrent
    · obtain ⟨name', node, hlink, -, hnode, -, hexecutable⟩ := hnew
      exact ⟨name', node, hlink, hnode, hexecutable⟩

/-! ## What a change keeps -/

@[simp] theorem FileSystem.put_same (files : FileSystem) (place : Place) (name : String) (node : Option Node) :
    files.put place name node place name = node := if_pos ⟨rfl, rfl⟩

theorem FileSystem.put_place {files : FileSystem} {place place' : Place} (hne : place' ≠ place) (name name' : String) (node : Option Node) :
    files.put place name node place' name' = files place' name' := if_neg fun h => hne h.1

theorem FileSystem.put_name {files : FileSystem} {name name' : String} (hne : name' ≠ name) (place place' : Place) (node : Option Node) :
    files.put place name node place' name' = files place' name' := if_neg fun h => hne h.2

/-- A place that no part of the state is about. -/
structure Unwatched (place : Place) (name : String) : Prop where
  current : ¬(place = .application ∧ name = "current")
  publicExecutable : ¬(place = .bin ∧ name = "git-commits-push")
  release : place = .releases → isStandaloneReleaseName name = false

theorem Unwatched.staging {name : String} (h : startsWith name ".staging-" = true) : Unwatched .releases name :=
  ⟨fun h => (by cases h.1), fun h => (by cases h.1), fun _ => staging_not_release h⟩

theorem Unwatched.put_release {place : Place} {name : String} (h : Unwatched place name) (node : Option Node) {release : String}
    (hnamed : isStandaloneReleaseName release = true) : files.put place name node .releases release = files .releases release := by
  refine if_neg fun heq => ?_
  have hnot := h.release heq.1.symm
  rw [← heq.2, hnamed] at hnot
  cases hnot

theorem Unwatched.put_current {place : Place} {name : String} (h : Unwatched place name) (node : Option Node) :
    files.put place name node .application "current" = files .application "current" :=
  if_neg fun heq => h.current ⟨heq.1.symm, heq.2.symm⟩

theorem Unwatched.put_public {place : Place} {name : String} (h : Unwatched place name) (node : Option Node) :
    files.put place name node .bin "git-commits-push" = files .bin "git-commits-push" :=
  if_neg fun heq => h.publicExecutable ⟨heq.1.symm, heq.2.symm⟩

theorem Sound.put (h : Sound host paths init files) {place : Place} {name : String} (hunwatched : Unwatched place name)
    (node : Option Node) : Sound host paths init (files.put place name node) := by
  refine ⟨fun release hnamed => ?_, ?_, ?_⟩
  · rw [hunwatched.put_release node hnamed]
    exact h.releases release hnamed
  · unfold CurrentNames
    rw [hunwatched.put_current]
    refine h.current.imp id fun hnew => ?_
    obtain ⟨release, tree, hlink, hnamed, hrest⟩ := hnew
    exact ⟨release, tree, hlink, hnamed, by rw [hunwatched.put_release node hnamed]; exact hrest⟩
  · unfold ManagedPublic
    rw [hunwatched.put_public]
    exact h.publicExecutable

/-! ## Steps -/

def ReplacesCurrent (step : FileStep) : Prop := ∃ place name, step = .rename place name .application "current"

/-- The changes of an installation so far, and the files they led to. -/
structure Safe (host : InstallHost) (paths : StandaloneInstallPaths) (init : FileSystem) (changes : List (FileStep × FileSystem))
    (files : FileSystem) : Prop where
  points : ∀ change ∈ changes, Sound host paths init change.2
  now : Sound host paths init files
  unreplaced : (∀ change ∈ changes, ¬ReplacesCurrent change.1) → files .application "current" = init .application "current"

variable {before : List (FileStep × FileSystem)} {α β : Type} {R : FileSystem → Prop} {Q : α → FileSystem → Prop}

variable (host paths init before) in
/-- From safe files that satisfy `R`, the program leaves safe files, of which `Q` holds if it returns. -/
def Holds (R : FileSystem → Prop) (x : Install α) (Q : α → FileSystem → Prop) : Prop :=
  Action.Triple (Since before fun changes files => Safe host paths init changes files ∧ R files) x fun result =>
    Since before fun changes files => Safe host paths init changes files ∧ ∀ a, result = .ok a → Q a files

namespace Holds

theorem conseq {R' : FileSystem → Prop} {Q' : α → FileSystem → Prop} {x : Install α} (h : Holds host paths init before R x Q)
    (hr : ∀ files, R' files → R files) (hq : ∀ a files, Q a files → Q' a files) : Holds host paths init before R' x Q' :=
  Action.Triple.conseq h (fun _ => Since.mono fun _ files hs => ⟨hs.1, hr files hs.2⟩)
    fun _ _ => Since.mono fun _ files hs => ⟨hs.1, fun a ha => hq a files (hs.2 a ha)⟩

theorem bind {T : β → FileSystem → Prop} {x : Install α} {f : α → Install β} (hx : Holds host paths init before R x Q)
    (hf : ∀ a, Holds host paths init before (Q a) (f a) T) : Holds host paths init before R (x >>= f) T := by
  refine Action.Triple.bind hx (fun a => ?_) fun e w => ?_
  · exact Action.Triple.conseq (hf a) (fun _ => Since.mono fun _ files hs => ⟨hs.1, hs.2 a rfl⟩) fun _ _ hs => hs
  · exact Since.mono fun _ files hs => ⟨hs.1, fun a ha => by cases ha⟩

theorem result {r : Except InstallError α} :
    Holds host paths init before R (fun s => (r, s)) fun a files => R files ∧ r = .ok a :=
  fun _ => Since.mono fun _ _ hs => ⟨hs.1, fun _ ha => ⟨hs.2, ha⟩⟩

theorem pure {a : α} (h : ∀ files, R files → Q a files) : Holds host paths init before R (Pure.pure a) Q :=
  fun _ => Since.mono fun _ files hs => ⟨hs.1, fun b hb => by cases hb; exact h files hs.2⟩

theorem throw {error : InstallError} : Holds host paths init before R (Action.throw error) Q :=
  fun _ => Since.mono fun _ _ hs => ⟨hs.1, fun _ hb => by cases hb⟩

theorem ite {c : Prop} [Decidable c] {x y : Install α} (hx : c → Holds host paths init before R x Q)
    (hy : ¬c → Holds host paths init before R y Q) : Holds host paths init before R (if c then x else y) Q :=
  Action.Triple.ite hx hy

theorem outcome {x : Install α} (hx : Holds host paths init before R x Q) :
    Holds host paths init before R (x.outcome : Install (Except InstallError α)) fun r files => ∀ a, r = .ok a → Q a files :=
  Action.Triple.outcome hx fun _ _ => Since.mono fun _ _ hs => ⟨hs.1, fun _ hr => by cases hr; exact hs.2⟩

/-- A handler that throws. -/
theorem attempt {x : Install α} {handler : InstallError → Install α} (hx : Holds host paths init before R x Q)
    (hhandler : ∀ error, Holds host paths init before (fun _ => True) (handler error) Q) :
    Holds host paths init before R (x.attempt handler) Q := by
  refine Action.Triple.attempt hx (fun _ _ hs => hs) fun error => ?_
  exact Action.Triple.conseq (hhandler error) (fun _ => Since.mono fun _ _ hs => ⟨hs.1, trivial⟩) fun _ _ hs => hs

theorem ensuring {x : Install α} {cleanup : Install Unit} (hx : Holds host paths init before R x Q)
    (hcleanup : Holds host paths init before (fun _ => True) cleanup fun _ _ => True) :
    Holds host paths init before R (Lib.Interruption.ensuring x cleanup) fun _ _ => True := by
  unfold Lib.Interruption.ensuring
  refine (outcome hx).bind fun r => ?_
  refine (hcleanup.conseq (fun _ _ => trivial) fun _ _ h => h).bind fun _ => ?_
  exact result.conseq (fun _ h => h) fun _ _ _ => trivial

/-- The rule of a step: every state it passes through is sound, and `current` is replaced by a
    rename only. -/
theorem perform {step : FileStep} {effect : Circumstance → FileSystem → Except InstallError α × List FileSystem}
    (hpassed : ∀ i files, Sound host paths init files → R files → ∀ passed ∈ (effect i files).2, Sound host paths init passed ∧
      (¬ReplacesCurrent step → passed .application "current" = files .application "current"))
    (hresult : ∀ i files, Sound host paths init files → R files → ∀ a, (effect i files).1 = .ok a →
      Q a ((effect i files).2.getLast?.getD files)) : Holds host paths init before R (Lib.Interruption.perform step effect) Q := by
  refine perform_triple fun changes files i hs => ?_
  obtain ⟨hsafe, hR⟩ := hs
  refine ⟨⟨?_, ?_, ?_⟩, fun a ha => hresult i files hsafe.now hR a ha⟩
  · intro change hchange
    rcases List.mem_append.mp hchange with hchange | hchange
    · exact hsafe.points change hchange
    · obtain ⟨passed, hmem, rfl⟩ := List.mem_map.mp hchange
      exact (hpassed i files hsafe.now hR passed hmem).1
  · cases hlast : (effect i files).2.getLast? with
    | none => exact hsafe.now
    | some last => exact (hpassed i files hsafe.now hR last (List.mem_of_getLast? hlast)).1
  · intro hnone
    have hold := hsafe.unreplaced fun change hchange => hnone change (List.mem_append_left _ hchange)
    cases hlast : (effect i files).2.getLast? with
    | none => exact hold
    | some last =>
      have hmem := List.mem_of_getLast? hlast
      have hstep := hnone (step, last) (List.mem_append_right _ (List.mem_map_of_mem hmem))
      exact ((hpassed i files hsafe.now hR last hmem).2 hstep).trans hold

theorem observe {step : FileStep} {answer : Circumstance → FileSystem → Except InstallError α} :
    Holds host paths init before R (Installation.observe step answer) fun a files =>
      R files ∧ ∃ circumstance, answer circumstance files = .ok a := by
  refine perform (fun i files _ _ passed hpassed => ?_) fun i files _ hR a ha => ?_
  · cases hfailure : i.failure with
    | some error => rw [hfailure] at hpassed; cases hpassed
    | none => rw [hfailure] at hpassed; cases hpassed
  · cases hfailure : i.failure with
    | some error => rw [hfailure] at ha; cases ha
    | none =>
      rw [hfailure] at ha
      exact ⟨hR, i, ha⟩

theorem change {step : FileStep} {effect : FileSystem → Except InstallError FileSystem} {R' : FileSystem → Prop}
    (h : ∀ files files', Sound host paths init files → R files → effect files = .ok files' →
      Sound host paths init files' ∧ R' files' ∧
        (¬ReplacesCurrent step → files' .application "current" = files .application "current")) :
    Holds host paths init before R (Installation.change step effect) fun _ => R' := by
  refine perform (fun i files hsound hR passed hpassed => ?_) fun i files hsound hR a ha => ?_
  · cases hfailure : i.failure with
    | some error => rw [hfailure] at hpassed; cases hpassed
    | none =>
      rw [hfailure] at hpassed
      dsimp only at hpassed
      cases heffect : effect files with
      | error error => rw [heffect] at hpassed; cases hpassed
      | ok files' =>
        rw [heffect] at hpassed
        cases List.mem_singleton.mp hpassed
        obtain ⟨hsound', -, hcurrent⟩ := h files _ hsound hR heffect
        exact ⟨hsound', hcurrent⟩
  · cases hfailure : i.failure with
    | some error => rw [hfailure] at ha; cases ha
    | none =>
      rw [hfailure] at ha
      dsimp only at ha ⊢
      cases heffect : effect files with
      | error error => rw [heffect] at ha; cases ha
      | ok files' => exact (h files files' hsound hR heffect).2.1

/-- A tree at a place no part is about is written or removed in any way. -/
theorem rewriteTree {place : Place} {name : String} (hunwatched : Unwatched place name)
    (hR : ∀ files node, R files → R (files.put place name node)) :
    Holds host paths init before R (Installation.rewriteTree place name) fun _ => R := by
  refine perform (fun i files hsound _ passed hpassed => ?_) fun i files _ hfiles a _ => ?_
  · obtain ⟨node, -, rfl⟩ := List.mem_map.mp hpassed
    exact ⟨hsound.put hunwatched _, fun _ => hunwatched.put_current _⟩
  · dsimp only
    cases hlast : (i.contents.map fun node => files.put place name (some node)).getLast? with
    | none => exact hfiles
    | some last =>
      obtain ⟨node, -, rfl⟩ := List.mem_map.mp (List.mem_of_getLast? hlast)
      exact hR files _ hfiles

theorem removeTree {place : Place} {name : String} (hunwatched : Unwatched place name)
    (hR : ∀ files node, R files → R (files.put place name node)) :
    Holds host paths init before R (Installation.removeTree place name) fun _ => R := by
  have hput : ∀ i files, ∀ passed ∈ (removal place name i files).2, ∃ node, passed = files.put place name node := by
    intro i files passed hpassed
    unfold removal at hpassed
    dsimp only at hpassed
    split at hpassed
    · cases hpassed
    · cases hpassed
    · obtain ⟨node, -, rfl⟩ := List.mem_map.mp hpassed
      exact ⟨_, rfl⟩
    · rcases List.mem_append.mp hpassed with hpassed | hpassed
      · obtain ⟨node, -, rfl⟩ := List.mem_map.mp hpassed
        exact ⟨_, rfl⟩
      · exact ⟨_, List.mem_singleton.mp hpassed⟩
  refine perform (fun i files hsound _ passed hpassed => ?_) fun i files _ hfiles a _ => ?_
  · obtain ⟨node, rfl⟩ := hput i files passed hpassed
    exact ⟨hsound.put hunwatched _, fun _ => hunwatched.put_current _⟩
  · cases hlast : (removal place name i files).2.getLast? with
    | none => exact hfiles
    | some last =>
      obtain ⟨node, rfl⟩ := hput i files last (List.mem_of_getLast? hlast)
      exact hR files _ hfiles

end Holds

/-! ## The deployment -/

theorem pathKind_holds {place : Place} {name : String} : Holds host paths init before R (pathKind place name) fun kind files =>
    R files ∧ (kind = .absent → files place name = none) := by
  refine Holds.observe.conseq (fun _ h => h) fun kind files hs => ⟨hs.1, fun hkind => ?_⟩
  obtain ⟨-, -, hanswer⟩ := hs
  subst hkind
  cases hthere : files place name with
  | none => rfl
  | some node =>
    rw [hthere] at hanswer
    cases node <;> cases hanswer

theorem readRelease_holds {name : String} {answer : FileSystem → Node → Except InstallError α} :
    Holds host paths init before R (readRelease name answer) fun a files =>
      R files ∧ ∃ node, files .releases name = some node ∧ answer files node = .ok a := by
  refine Holds.observe.conseq (fun _ h => h) fun a files hs => ⟨hs.1, ?_⟩
  obtain ⟨-, -, hanswer⟩ := hs
  cases hthere : files .releases name with
  | none => rw [hthere] at hanswer; cases hanswer
  | some node =>
    rw [hthere] at hanswer
    exact ⟨node, rfl, hanswer⟩

/-- Every file of the list was found. -/
theorem requireFiles_holds {name : String} (required : List String) :
    Holds host paths init before R (requireFiles host name required) fun _ files =>
      R files ∧ ∀ relativePath ∈ required, ∀ node, files .releases name = some node →
        isFile (host.lstatIn node relativePath) = true := by
  induction required generalizing R with
  | nil => exact Holds.pure fun _ hR => ⟨hR, fun _ h => absurd h List.not_mem_nil⟩
  | cons relativePath required ih =>
    refine Holds.bind readRelease_holds fun _ => (ih (R := _)).conseq (fun _ h => h) fun _ files hs => ?_
    obtain ⟨⟨hR, node, hnode, hfile⟩, hrest⟩ := hs
    refine ⟨hR, fun other hother node' hnode' => ?_⟩
    rcases List.mem_cons.mp hother with rfl | hother
    · rw [hnode] at hnode'
      cases hnode'
      by_contra hnot
      rw [if_neg hnot] at hfile
      cases hfile
    · exact hrest other hother node' hnode'

/-- The staging directory holds a whole build of the version, of this digest. -/
def Staged (host : InstallHost) (stagingDirectory : String) (digest version : String) (files : FileSystem) : Prop :=
  isPackageVersion version.toList = true ∧ ∃ node, files .releases stagingDirectory = some node ∧
    (∀ relativePath ∈ requiredReleaseFiles, isFile (host.lstatIn node relativePath) = true) ∧
    ∃ realpath rootDirectory, digestReleaseTree host.sha256 realpath rootDirectory node = .ok digest

theorem requireStandalonePackageVersion_eq_ok {value : Option String} {version : String}
    (h : requireStandalonePackageVersion value = .ok version) : isPackageVersion version.toList = true := by
  unfold requireStandalonePackageVersion at h
  split at h
  · split at h
    · cases h
      assumption
    · cases h
  · cases h

theorem mapError_eq_ok {ε ε' α : Type} {f : ε → ε'} {x : Except ε α} {a : α} (h : x.mapError f = .ok a) : x = .ok a := by
  cases x with
  | ok b => cases h; rfl
  | error e => cases h

theorem treeDigest_holds {name : String} : Holds host paths init before R (treeDigest host paths name) fun digest files =>
    R files ∧ ∃ node, files .releases name = some node ∧
      ∃ realpath rootDirectory, digestReleaseTree host.sha256 realpath rootDirectory node = .ok digest := by
  refine readRelease_holds.conseq (fun _ h => h) fun digest files hs => ⟨hs.1, ?_⟩
  obtain ⟨-, node, hnode, hdigest⟩ := hs
  exact ⟨node, hnode, _, _, mapError_eq_ok hdigest⟩

theorem validateDeployedApplication_holds {name : String} (hunwatched : Unwatched .releases name) :
    Holds host paths init before (fun _ => True) (validateDeployedApplication host paths name) fun version files =>
      isPackageVersion version.toList = true ∧ ∀ relativePath ∈ requiredReleaseFiles, ∀ node, files .releases name = some node →
        isFile (host.lstatIn node relativePath) = true := by
  unfold validateDeployedApplication
  refine Holds.bind readRelease_holds fun manifest => ?_
  refine Holds.ite (fun _ => Holds.throw) fun _ => ?_
  refine Holds.bind Holds.result fun version => ?_
  refine Holds.bind (Q := fun _ _ => isPackageVersion version.toList = true) (Holds.change ?_) fun _ => ?_
  · intro files files' hsound hR heffect
    have hversion := requireStandalonePackageVersion_eq_ok hR.2
    cases hthere : files .releases name with
    | none => rw [hthere] at heffect; cases heffect
    | some node =>
      rw [hthere] at heffect
      cases hchmod : host.chmodIn node "bin/git-commits-push.mjs" 0o755 with
      | error error => simp only [hchmod] at heffect; cases heffect
      | ok node' =>
        simp only [hchmod] at heffect
        cases heffect
        exact ⟨hsound.put hunwatched _, hversion, fun _ => hunwatched.put_current _⟩
  · refine Holds.bind (requireFiles_holds requiredReleaseFiles) fun _ => ?_
    refine Holds.bind readRelease_holds fun _ => ?_
    exact Holds.pure fun _ hs => hs.1

theorem buildStandaloneDeployment_holds {name : String} (hunwatched : Unwatched .releases name) :
    Holds host paths init before (fun _ => True) (buildStandaloneDeployment host paths name) fun deployment =>
      Staged host name deployment.1 deployment.2 := by
  unfold buildStandaloneDeployment
  refine Holds.bind (Holds.rewriteTree hunwatched fun _ _ h => h) fun _ => ?_
  refine Holds.bind (Holds.rewriteTree hunwatched fun _ _ h => h) fun _ => ?_
  refine Holds.bind (validateDeployedApplication_holds hunwatched) fun version => ?_
  refine Holds.bind treeDigest_holds fun digest => ?_
  refine Holds.pure fun files hs => ?_
  obtain ⟨⟨hversion, hfiles⟩, node, hnode, hdigest⟩ := hs
  exact ⟨hversion, node, hnode, fun relativePath h => hfiles relativePath h node hnode, hdigest⟩

/-! ## The activation -/

/-- A release directory that is there, of verified digest. -/
def Ready (host : InstallHost) (releaseName : String) (files : FileSystem) : Prop :=
  ∃ node, files .releases releaseName = some node ∧ Verified host releaseName node

/-- One with the executable. -/
def Runnable (host : InstallHost) (releaseName : String) (files : FileSystem) : Prop :=
  ∃ node, files .releases releaseName = some node ∧ Verified host releaseName node ∧ HasExecutable host node

theorem ensureStablePublicExecutable_holds {releaseName : String} :
    Holds host paths init before (Runnable host releaseName) (ensureStablePublicExecutable paths) fun _ =>
      Runnable host releaseName := by
  unfold ensureStablePublicExecutable
  refine Holds.bind pathKind_holds fun kind => ?_
  refine Holds.ite (fun _ => ?_) fun _ => ?_
  · refine Holds.bind Holds.observe fun target => ?_
    exact Holds.ite (fun _ => Holds.throw) fun _ => Holds.pure fun _ hs => hs.1.1
  · refine Holds.ite (fun _ => Holds.throw) fun _ => ?_
    refine Holds.attempt (Holds.change ?_) fun error => Holds.ite (fun _ => Holds.throw) fun _ => Holds.throw
    intro files files' hsound hR heffect
    cases hthere : files .bin "git-commits-push" with
    | some node => rw [hthere] at heffect; cases heffect
    | none =>
      rw [hthere] at heffect
      cases heffect
      refine ⟨⟨hsound.releases, hsound.current, ?_⟩, hR.1, fun _ => rfl⟩
      refine .inr ⟨?_, 0o777, if_pos ⟨rfl, rfl⟩⟩
      rcases hsound.publicExecutable with hsame | hnew
      · exact hsame ▸ hthere
      · exact hnew.1

theorem temporaryLink_ne (random : String) : "current.next-" ++ random ≠ "current" := by
  intro h
  have hlength := congrArg (fun text : String => text.toList.length) h
  simp only [String.toList_append, List.length_append] at hlength
  rw [show "current.next-".toList.length = 13 by decide, show "current".toList.length = 7 by decide] at hlength
  omega

theorem Unwatched.temporaryLink (random : String) : Unwatched .application ("current.next-" ++ random) :=
  ⟨fun h => temporaryLink_ne random h.2, fun h => (by cases h.1), fun h => (by cases h)⟩

theorem Runnable.put {releaseName name : String} {place : Place} (hnamed : isStandaloneReleaseName releaseName = true)
    (hunwatched : Unwatched place name) (h : Runnable host releaseName files) (node : Option Node) :
    Runnable host releaseName (files.put place name node) := by
  unfold Runnable
  rw [hunwatched.put_release node hnamed]
  exact h

theorem checkCurrentReleaseLink_holds : Holds host paths init before R (checkCurrentReleaseLink paths) fun _ => R := by
  unfold checkCurrentReleaseLink
  refine Holds.bind pathKind_holds fun kind => ?_
  refine Holds.ite (fun _ => Holds.throw) fun _ => Holds.ite (fun _ => ?_) fun _ => Holds.pure fun _ hs => hs.1
  refine Holds.bind Holds.observe fun target => ?_
  exact Holds.ite (fun _ => Holds.throw) fun _ => Holds.pure fun _ hs => hs.1.1

/-- `current` is replaced when the release can be run. -/
theorem rename_current_holds {releaseName temporaryLink : String} (hnamed : isStandaloneReleaseName releaseName = true) :
    Holds host paths init before (fun files => Runnable host releaseName files ∧
        files .application temporaryLink = some (.symlink 0o777 ("releases/" ++ releaseName)))
      (rename .application temporaryLink .application "current") fun _ _ => True := by
  refine Holds.change fun files files' hsound hR heffect => ?_
  obtain ⟨⟨node, hnode, hverified, hexecutable⟩, hlink⟩ := hR
  have hmoved : files' = (files.put .application temporaryLink none).put .application "current"
      (some (.symlink 0o777 ("releases/" ++ releaseName))) := by
    rw [hlink] at heffect
    cases hthere : files .application "current" with
    | none => rw [hthere] at heffect; cases heffect; rfl
    | some existing =>
      rw [hthere] at heffect
      cases existing with
      | directory mode children => cases heffect
      | file mode content => cases heffect; rfl
      | symlink mode target => cases heffect; rfl
      | special mode => cases heffect; rfl
  have hcurrent : files' .application "current" = some (.symlink 0o777 ("releases/" ++ releaseName)) := by
    rw [hmoved, FileSystem.put_same]
  have hother : ∀ place name, place ≠ .application → files' place name = files place name := by
    intro place name hne
    rw [hmoved, FileSystem.put_place hne, FileSystem.put_place hne]
  refine ⟨⟨fun name hname => ?_, .inr ?_, ?_⟩, trivial, fun hnot => absurd ⟨_, _, rfl⟩ hnot⟩
  · rw [hother .releases name (by decide)]
    exact hsound.releases name hname
  · exact ⟨releaseName, node, ⟨0o777, hcurrent⟩, hnamed, by rw [hother .releases releaseName (by decide)]; exact hnode,
      hverified, hexecutable⟩
  · unfold ManagedPublic
    rw [hother .bin _ (by decide)]
    exact hsound.publicExecutable

theorem symlink_unwatched_holds {target name : String} {place : Place} (hunwatched : Unwatched place name)
    (hR : ∀ files node, R files → R (files.put place name node)) :
    Holds host paths init before R (symlink target place name) fun _ files =>
      R files ∧ files place name = some (.symlink 0o777 target) := by
  refine Holds.change fun files files' hsound hfiles heffect => ?_
  cases hthere : files place name with
  | some node => rw [hthere] at heffect; cases heffect
  | none =>
    rw [hthere] at heffect
    cases heffect
    exact ⟨hsound.put hunwatched _, ⟨hR files _ hfiles, FileSystem.put_same _ _ _ _⟩, fun _ => hunwatched.put_current _⟩

theorem removeFile_holds {place : Place} {name : String} (hunwatched : Unwatched place name) :
    Holds host paths init before R (removeFile place name) fun _ _ => True := by
  refine Holds.change fun files files' hsound hfiles heffect => ?_
  split at heffect
  · cases heffect
  · cases heffect
    exact ⟨hsound.put hunwatched _, trivial, fun _ => hunwatched.put_current _⟩

theorem replaceCurrentReleaseLink_holds {releaseName : String} (hnamed : isStandaloneReleaseName releaseName = true) :
    Holds host paths init before (Runnable host releaseName) (replaceCurrentReleaseLink paths releaseName) fun _ _ => True := by
  unfold replaceCurrentReleaseLink
  refine Holds.bind checkCurrentReleaseLink_holds fun _ => ?_
  refine Holds.bind Holds.observe fun random => ?_
  have hunwatched := Unwatched.temporaryLink random
  refine Holds.ensuring (Holds.bind ?_ fun _ => rename_current_holds hnamed) (removeFile_holds hunwatched)
  refine (symlink_unwatched_holds hunwatched fun files node h => ?_).conseq (fun _ hs => hs.1) fun _ _ hs => hs
  exact Runnable.put hnamed hunwatched h node

theorem activateStandaloneRelease_holds {releaseName : String} :
    Holds host paths init before (Ready host releaseName) (activateStandaloneRelease host paths releaseName) fun _ _ => True := by
  unfold activateStandaloneRelease
  refine Holds.ite (fun _ => Holds.throw) fun hnamed => ?_
  have hnamed : isStandaloneReleaseName releaseName = true := by simpa using hnamed
  refine Holds.bind (Q := fun _ => Runnable host releaseName) ?_ fun _ => ?_
  · refine readRelease_holds.conseq (fun _ h => h) fun _ files hs => ?_
    obtain ⟨⟨node, hnode, hverified⟩, node', hnode', hfile⟩ := hs
    rw [hnode] at hnode'
    cases hnode'
    refine ⟨node, hnode, hverified, ?_⟩
    unfold HasExecutable
    split at hfile
    · cases hfile
    · by_contra hnot
      rw [if_neg hnot] at hfile
      cases hfile
  refine Holds.bind (Q := fun _ => Runnable host releaseName) (Holds.observe.conseq (fun _ h => h) fun _ _ hs => hs.1) fun _ => ?_
  refine Holds.bind ensureStablePublicExecutable_holds fun _ => ?_
  refine Holds.bind (replaceCurrentReleaseLink_holds hnamed) fun _ => ?_
  refine Holds.bind Holds.observe fun active => Holds.bind Holds.observe fun requested => ?_
  exact Holds.ite (fun _ => Holds.throw) fun _ => Holds.pure fun _ _ => trivial

/-! ## The installation -/

theorem removeStaleStagingDirectories_holds :
    Holds host paths init before R (removeStaleStagingDirectories paths) fun _ _ => True := by
  have hone : ∀ name, Holds host paths init before (fun _ => True) (removeIfStaging paths name) fun _ _ => True := by
    intro name
    unfold removeIfStaging
    refine Holds.ite (fun hstaging => ?_) fun _ => Holds.pure fun _ h => h
    have hunwatched : Unwatched .releases name := Unwatched.staging (Bool.and_eq_true_iff.mp hstaging).1
    refine Holds.bind pathKind_holds fun kind => Holds.ite (fun _ => Holds.throw) fun _ => ?_
    exact (Holds.removeTree hunwatched fun _ _ h => h).conseq (fun _ _ => trivial) fun _ _ h => h
  have heach : ∀ names, Holds host paths init before (fun _ => True) (removeEach paths names) fun _ _ => True := by
    intro names
    induction names with
    | nil => exact Holds.pure fun _ h => h
    | cons name names ih => exact Holds.bind (hone name) fun _ => ih
  unfold removeStaleStagingDirectories
  exact Holds.bind Holds.observe fun names => (heach names).conseq (fun _ _ => trivial) fun _ _ h => h

/-- A release whose digest was verified again. -/
theorem verifyExistingRelease_eq_ok {realpath : Path → Except String Path} {releaseDirectory : Path} {found : Option Node}
    {digest : String} (h : verifyExistingRelease host.sha256 realpath releaseDirectory found digest = .ok ()) :
    ∃ node, found = some node ∧ digestReleaseTree host.sha256 realpath releaseDirectory node = .ok digest := by
  unfold verifyExistingRelease at h
  split at h
  · rename_i mode children
    cases hdigest : digestReleaseTree host.sha256 realpath releaseDirectory (.directory mode children) with
    | error message => rw [hdigest] at h; cases h
    | ok observed =>
      simp only [hdigest, bind, Except.bind] at h
      by_cases hsame : observed ≠ digest
      · rw [if_pos hsame] at h
        cases h
      · exact ⟨_, rfl, (not_not.mp hsame) ▸ hdigest⟩
  · cases h

/-- A whole build goes by its release name at once. -/
theorem rename_staging_holds {stagingDirectory releaseName digest version : String}
    (hstaging : startsWith stagingDirectory ".staging-" = true) (hcreate : createStandaloneReleaseName version digest = .ok releaseName) :
    Holds host paths init before (fun files => Staged host stagingDirectory digest version files ∧ files .releases releaseName = none)
      (rename .releases stagingDirectory .releases releaseName) fun _ => Ready host releaseName := by
  obtain ⟨hversion, hname, hnamed⟩ := createStandaloneReleaseName_eq_ok hcreate
  refine Holds.change fun files files' hsound hR heffect => ?_
  obtain ⟨⟨-, node, hnode, hfiles, hdigest⟩, habsent⟩ := hR
  have hverified : Verified host releaseName node := ⟨version, digest, hversion, hname, hdigest⟩
  obtain ⟨mode, children, rfl⟩ := hverified.directory
  rw [hnode, habsent] at heffect
  cases heffect
  have hunwatched := Unwatched.staging hstaging
  have hcleared := hsound.put hunwatched none
  refine ⟨⟨fun name hrelease => ?_, ?_, hcleared.publicExecutable⟩, ⟨_, FileSystem.put_same _ _ _ _, hverified⟩, fun _ => rfl⟩
  by_cases hsame : name = releaseName
  · subst hsame
    refine .inr ⟨?_, _, FileSystem.put_same _ _ _ _, hverified, hfiles⟩
    rcases hsound.releases name hrelease with hinit | hnew
    · exact hinit ▸ habsent
    · exact hnew.1
  · dsimp only
    rw [FileSystem.put_name hsame]
    exact hcleared.releases name hrelease
  · -- a release that `current` names is there, so its name was not the one taken
    refine hcleared.current.imp id fun hnew => ?_
    obtain ⟨name, node, hlink, hrelease, hthere, hrest⟩ := hnew
    have hsame : name ≠ releaseName := by
      intro heq
      rw [heq, hunwatched.put_release none hnamed, habsent] at hthere
      cases hthere
    exact ⟨name, node, hlink, hrelease, by dsimp only; rw [FileSystem.put_name hsame]; exact hthere, hrest⟩

theorem installRelease_holds {stagingDirectory : String} (hstaging : startsWith stagingDirectory ".staging-" = true) :
    Holds host paths init before R (installRelease host paths stagingDirectory) fun _ _ => True := by
  have hunwatched := Unwatched.staging hstaging
  unfold installRelease
  refine Holds.bind removeStaleStagingDirectories_holds fun _ => ?_
  refine Holds.bind (Q := fun _ _ => True) (Holds.change fun files files' hsound _ heffect => ?_) fun _ => ?_
  · cases hthere : files .releases stagingDirectory with
    | some node => rw [hthere] at heffect; cases heffect
    | none =>
      rw [hthere] at heffect
      cases heffect
      exact ⟨hsound.put hunwatched _, trivial, fun _ => hunwatched.put_current _⟩
  refine Holds.bind (buildStandaloneDeployment_holds hunwatched) fun deployment => ?_
  obtain ⟨digest, version⟩ := deployment
  refine Holds.bind Holds.result fun releaseName => ?_
  refine Holds.bind pathKind_holds fun kind => ?_
  by_cases hcreate : createStandaloneReleaseName version digest = .ok releaseName
  · obtain ⟨hversion, hname, hnamed⟩ := createStandaloneReleaseName_eq_ok hcreate
    refine Holds.ite (fun habsent => ?_) fun _ => ?_
    · refine Holds.bind ((rename_staging_holds hstaging hcreate).conseq (fun _ hs => ⟨hs.1.1, hs.2 habsent⟩) fun _ _ hq => hq) fun _ => ?_
      exact Holds.bind activateStandaloneRelease_holds fun _ => Holds.pure fun _ _ => trivial
    · refine Holds.bind (Q := fun _ => Ready host releaseName) (Holds.observe.conseq (fun _ h => h) fun _ files hs => ?_) fun _ => ?_
      · obtain ⟨-, -, hverify⟩ := hs
        obtain ⟨node, hnode, hdigest⟩ := verifyExistingRelease_eq_ok (mapError_eq_ok hverify)
        exact ⟨node, hnode, version, digest, hversion, hname, _, _, hdigest⟩
      · refine Holds.bind (Holds.removeTree hunwatched fun files node hready => ?_) fun _ => ?_
        · unfold Ready
          rw [hunwatched.put_release node hnamed]
          exact hready
        · exact Holds.bind activateStandaloneRelease_holds fun _ => Holds.pure fun _ _ => trivial
  · intro w hw
    obtain ⟨_, _, hs⟩ := hw
    exact absurd hs.2.1.2 hcreate

theorem installOrCleanUp_holds {stagingDirectory : String} (hstaging : startsWith stagingDirectory ".staging-" = true) :
    Holds host paths init before R (installOrCleanUp host paths stagingDirectory) fun _ _ => True := by
  refine Holds.attempt (installRelease_holds hstaging) fun error => ?_
  exact Holds.bind (Holds.outcome (Holds.removeTree (Unwatched.staging hstaging) fun _ _ h => h)) fun _ => Holds.throw

theorem installStandalone_holds : Holds host paths init before R (installStandalone host paths) fun _ _ => True := by
  unfold installStandalone
  refine Holds.bind Holds.observe fun _ => Holds.bind Holds.observe fun _ => Holds.bind Holds.observe fun _ => ?_
  refine Holds.bind Holds.observe fun _ => Holds.bind Holds.observe fun random => ?_
  have hstaging : startsWith (".staging-" ++ random) ".staging-" = true := by
    unfold startsWith
    rw [String.toList_append]
    exact List.isPrefixOf_iff_prefix.mpr (List.prefix_append _ _)
  refine Holds.bind (Holds.outcome (installOrCleanUp_holds hstaging)) fun operation => ?_
  refine Holds.bind (Holds.outcome Holds.observe) fun released => ?_
  cases operation with
  | error error => exact Holds.throw
  | ok result =>
    cases released with
    | error error => exact Holds.throw
    | ok _ => exact Holds.pure fun _ _ => trivial

end Releases

/-- At every moment of an installation (before its first change, after each change, at its end)
    the files are consistent with those before it, and one that throws without having replaced
    `current` leaves it naming its release. -/
theorem installation_crash_consistent (host : InstallHost) (paths : StandaloneInstallPaths) (w : Installing) (name : String)
    (hvalid : CurrentResolves w.state name) :
    ∃ changes, ((installStandalone host paths).run w).2.log = w.log ++ changes ∧
      Consistent host paths w.state w.state ∧
      (∀ change ∈ changes, Consistent host paths w.state change.2) ∧
      Consistent host paths w.state ((installStandalone host paths).run w).2.state ∧
      ∀ error, ((installStandalone host paths).run w).1 = .error error → (∀ change ∈ changes, ¬ReplacesCurrent change.1) →
        CurrentNames ((installStandalone host paths).run w).2.state name := by
  have hstart : Since w.log (fun changes files => Safe host paths w.state changes files ∧ True) w :=
    ⟨[], (List.append_nil _).symm, ⟨fun _ h => absurd h List.not_mem_nil, Sound.refl _, fun _ => rfl⟩, trivial⟩
  obtain ⟨changes, hlog, hsafe, -⟩ := installStandalone_holds (R := fun _ => True) w hstart
  refine ⟨changes, hlog, (Sound.refl _).consistent hvalid, fun change h => (hsafe.points change h).consistent hvalid,
    hsafe.now.consistent hvalid, fun _ _ hnone => ?_⟩
  unfold CurrentNames
  rw [hsafe.unreplaced hnone]
  exact hvalid.link

/-! ## A run

The sample file system has no link inside a release. -/

mutual

def linkless : Node → Bool
  | .directory _ children => eachLinkless children
  | .file _ _ => true
  | _ => false

def eachLinkless : List (FileName × Node) → Bool
  | [] => true
  | (_, node) :: children => linkless node && eachLinkless children

end

theorem eachLinkless_iff (children : List (FileName × Node)) :
    eachLinkless children = true ↔ ∀ child ∈ children, linkless child.2 = true := by
  induction children with
  | nil => exact ⟨fun _ child h => absurd h List.not_mem_nil, fun _ => rfl⟩
  | cons child children ih => rw [eachLinkless, Bool.and_eq_true_iff, ih, List.forall_mem_cons]

theorem inTurn_isOk {α : Type} {results : List (Except String (List α))} (h : ∀ result ∈ results, ∃ entries, result = .ok entries) :
    ∃ entries, inTurn results = .ok entries := by
  induction results with
  | nil => exact ⟨[], rfl⟩
  | cons result results ih =>
    obtain ⟨entries, rfl⟩ := h result List.mem_cons_self
    obtain ⟨others, hothers⟩ := ih fun other hother => h other (List.mem_cons_of_mem _ hother)
    exact ⟨entries ++ others, by rw [inTurn, hothers]; rfl⟩

section Linkless

variable {realpath : Path → Except String Path} {rootDirectory physicalRoot : Path}

theorem visited {directory : Path} {children : List (FileName × Node)}
    (h : ∀ child ∈ children, ∃ entries, visitChild realpath rootDirectory physicalRoot directory child.1 child.2 = .ok entries) :
    ∃ entries, visit realpath rootDirectory physicalRoot directory children = .ok entries := by
  refine inTurn_isOk fun result hresult => ?_
  obtain ⟨item, hitem, rfl⟩ := List.mem_map.mp hresult
  rw [List.mem_mergeSort, visitEach_eq] at hitem
  obtain ⟨child, hchild, rfl⟩ := List.mem_map.mp hitem
  exact h child hchild

theorem visitChild_linkless (node : Node) (h : linkless node = true) (directory : Path) (name : FileName) :
    ∃ entries, visitChild realpath rootDirectory physicalRoot directory name node = .ok entries := by
  induction node using Node.induct generalizing directory name with
  | hdirectory mode children ih =>
    have hvisited : ∃ inside, visit realpath rootDirectory physicalRoot (directory ++ [name.text]) children = .ok inside :=
      visited fun child hchild => ih child hchild ((eachLinkless_iff children).mp h child hchild) (directory ++ [name.text]) child.1
    obtain ⟨inside, hinside⟩ := hvisited
    unfold visit at hinside
    rw [visitChild, hinside]
    exact ⟨_, rfl⟩
  | hfile mode content => exact ⟨_, rfl⟩
  | hsymlink mode target => cases h
  | hspecial mode => cases h

/-- A directory without links and special files, whose path resolves. -/
def Plain (realpath : Path → Except String Path) (rootDirectory : Path) : Node → Bool
  | .directory _ children => (realpath rootDirectory).toOption.isSome && eachLinkless children
  | _ => false

theorem collect_plain {tree : Node} (h : Plain realpath rootDirectory tree = true) :
    ∃ entries, collectReleaseTreeEntries realpath rootDirectory tree = .ok entries := by
  cases tree with
  | directory mode children =>
    obtain ⟨hroot, hchildren⟩ := Bool.and_eq_true_iff.mp h
    cases hphysical : realpath rootDirectory with
    | error message =>
      rw [hphysical] at hroot
      cases hroot
    | ok physical =>
      rw [collectReleaseTreeEntries, hphysical]
      exact visited fun child hchild => visitChild_linkless child.2 ((eachLinkless_iff children).mp hchildren child hchild) _ _
  | _ => cases h

end Linkless

def folder (children : List (String × Node)) : Node :=
  .directory 0o755 (children.filterMap fun child =>
    if h : child.1 ≠ "" ∧ '/' ∉ child.1.toList then some (⟨child.1, h⟩, child.2) else none)

mutual

/-- Each path below a node, after the path of the node. -/
def pathsBelow (above : String) : Node → List (String × Node)
  | .directory _ children => pathsOf above children
  | _ => []

def pathsOf (above : String) : List (FileName × Node) → List (String × Node)
  | [] => []
  | (name, node) :: children =>
    (above ++ name.text, node) :: (pathsBelow (above ++ name.text ++ "/") node ++ pathsOf above children)

end

def withMode (mode : Nat) : Node → Node
  | .directory _ children => .directory mode children
  | .file _ content => .file mode content
  | node => node

mutual

def chmodBelow (path : String) (mode : Nat) (above : String) : Node → Node
  | .directory own children => .directory own (chmodOf path mode above children)
  | node => node

def chmodOf (path : String) (mode : Nat) (above : String) : List (FileName × Node) → List (FileName × Node)
  | [] => []
  | (name, node) :: children =>
    (name, if above ++ name.text = path then withMode mode node else chmodBelow path mode (above ++ name.text ++ "/") node) ::
      chmodOf path mode above children

end

def nodeBelow (path : String) (node : Node) : Option Node := ((pathsBelow "" node).find? (·.1 == path)).map (·.2)

def samplePaths : StandaloneInstallPaths := ⟨["home", "share", "git-commits-push"], ["home", "bin"]⟩

def placePath : Place → Path
  | .bin => samplePaths.binDirectory
  | .application => samplePaths.applicationDirectory
  | .releases => samplePaths.applicationDirectory ++ ["releases"]

/-- What is at a path: an entry of one of the directories, or what is below it. -/
def nodeAt (files : FileSystem) (path : Path) : Option Node :=
  [Place.releases, .application, .bin].findSome? fun place =>
    if (placePath place).isPrefixOf path then match path.drop (placePath place).length with
      | [] => none
      | [name] => files place name
      | name :: names => (files place name).bind (nodeBelow (joinStrings "/" names))
    else none

/-- The names are gone through one by one, and links followed. -/
def walk (files : FileSystem) : Nat → Path → List String → Except String Path
  | 0, _, _ => .error "ELOOP: too many symbolic links encountered, realpath"
  | _ + 1, directory, [] => .ok directory
  | fuel + 1, directory, name :: names => match nodeAt files (directory ++ [name]) with
    | some (.symlink _ target) => walk files fuel [] (resolve directory target ++ names)
    | some _ => walk files fuel (directory ++ [name]) names
    | none =>
      if [Place.bin, .releases].any fun place => (directory ++ [name]).isPrefixOf (placePath place) then
        walk files fuel (directory ++ [name]) names
      else .error "ENOENT: no such file or directory, realpath"

/-- A manifest of the sample is the version alone. -/
def sampleHost : InstallHost where
  sha256 _ := String.ofList (List.replicate 64 'b')
  realpath files path := walk files 40 [] path
  lstatIn node path := nodeBelow path node
  chmodIn node path mode :=
    if (nodeBelow path node).isSome then .ok (chmodBelow path mode "" node)
    else .error ⟨some "ENOENT", "ENOENT: no such file or directory, chmod"⟩
  manifest node := match nodeBelow "package.json" node with
    | some (.file _ content) => .ok (some "git-commits-push", some (String.ofList (content.map fun byte => Char.ofNat byte.toNat)))
    | _ => .error ⟨some "ENOENT", "ENOENT: no such file or directory, open"⟩

def deployedRelease : Node :=
  folder [("package.json", .file 0o644 [49, 46, 48, 46, 48]), ("bin", folder [("git-commits-push.mjs", .file 0o644 [])]),
    ("dist", folder [("system-prompt.md", .file 0o644 []),
      ("src", folder [("config", folder [("settings.json", .file 0o644 [])]),
        ("entrypoints", folder [("git-commits-push.js", .file 0o644 []), ("node-supervisor.js", .file 0o644 []),
          ("turnlock-orchestrator.js", .file 0o644 []), ("turnlock-to-llm-bridge.js", .file 0o644 [])])])]),
    ("node_modules", folder [("@git-commits-push", folder [
      ("node-runtime", folder [("dist", folder [("index.js", .file 0o644 [])])]),
      ("trust", folder [("dist", folder [("index.js", .file 0o644 [])])])])])]

def previousRelease : String := "0.9.0-" ++ String.ofList (List.replicate 64 'a')

/-- An installation of a release over another. -/
def sampleInstallation : Installing where
  state := fun place name => match place with
    | .bin => none
    | .application => if name = "current" then some (.symlink 0o777 ("releases/" ++ previousRelease)) else none
    | .releases => if name = previousRelease then some deployedRelease else none
  ticks := 0
  schedule _ := ⟨none, [deployedRelease], [], "00"⟩
  log := []

/-- What a plain release is answered, without its order. -/
theorem sampleHost_collects (name : String) :
    (fun (files : FileSystem) (node : Node) => ((collectReleaseTreeEntries (sampleHost.realpath files)
        (samplePaths.releaseDirectory name) node).mapError plainError).map fun _ => ()) =
      fun files node => if Plain (sampleHost.realpath files) (samplePaths.releaseDirectory name) node = true then .ok ()
        else ((collectReleaseTreeEntries (sampleHost.realpath files)
          (samplePaths.releaseDirectory name) node).mapError plainError).map fun _ => () := by
  funext files node
  split
  · rename_i hplain
    obtain ⟨entries, hentries⟩ := collect_plain hplain
    rw [hentries]
    rfl
  · rfl

theorem sampleHost_digests (name : String) :
    (fun (files : FileSystem) (node : Node) => (digestReleaseTree sampleHost.sha256 (sampleHost.realpath files)
        (samplePaths.releaseDirectory name) node).mapError plainError) =
      fun files node => if Plain (sampleHost.realpath files) (samplePaths.releaseDirectory name) node = true then
          .ok (String.ofList (List.replicate 64 'b'))
        else (digestReleaseTree sampleHost.sha256 (sampleHost.realpath files)
          (samplePaths.releaseDirectory name) node).mapError plainError := by
  funext files node
  split
  · rename_i hplain
    obtain ⟨entries, hentries⟩ := collect_plain hplain
    rw [digestReleaseTree, hentries]
    rfl
  · rfl

theorem sampleInstallation_installed : ((installStandalone sampleHost samplePaths).run sampleInstallation).1 =
    .ok ⟨"1.0.0-" ++ String.ofList (List.replicate 64 'b'), false⟩ := by
  unfold installStandalone installOrCleanUp installRelease buildStandaloneDeployment validateDeployedApplication treeDigest
  simp only [sampleHost_collects, sampleHost_digests]
  decide +kernel

theorem sampleInstallation_consistent :
    ((installStandalone sampleHost samplePaths).run sampleInstallation).1 =
      .ok ⟨"1.0.0-" ++ String.ofList (List.replicate 64 'b'), false⟩ ∧
    Consistent sampleHost samplePaths sampleInstallation.state
      ((installStandalone sampleHost samplePaths).run sampleInstallation).2.state := by
  have hvalid : CurrentResolves sampleInstallation.state previousRelease :=
    ⟨⟨0o777, rfl⟩, by decide +kernel, 0o755, _, rfl⟩
  obtain ⟨changes, -, -, -, hend, -⟩ := installation_crash_consistent sampleHost samplePaths sampleInstallation previousRelease hvalid
  exact ⟨sampleInstallation_installed, hend⟩

end GitCommitsPush.Installation
