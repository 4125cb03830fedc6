/-
  GitCommitsPush.Installation.ReleaseTree — the digest of a release
  (`installation/release-tree.ts`, `verifyExistingRelease` of `standalone-installer.ts`).

  A release is walked in the order of its names. Each entry is fed to SHA-256 as fields after
  their lengths, a file's bytes after their number, so the stream tells the entries
  (`labelBytes_prefixFree`); the entries are in order of their paths, so they are those of one
  tree (`listing_eq_of_agree`).

  Paths are resolved: each is its list of names. A tree does not change while it is read, so
  an entry carries the bytes that are read of it.
-/

import GitCommitsPush.Lib.PosixPath
import GitCommitsPush.Lib.PrefixCode
import Mathlib.Data.List.Lex
import Mathlib.Data.List.Nodup
import Mathlib.Data.List.Perm.Basic

namespace GitCommitsPush.Installation

open GitCommitsPush.Lib.JsText
open GitCommitsPush.Lib.PosixPath (pushSegment)
open GitCommitsPush.Lib.PrefixCode

/-! ## File systems -/

structure FileName where
  text : String
  valid : text ≠ "" ∧ '/' ∉ text.toList
  deriving DecidableEq

inductive Node where
  | directory (mode : Nat) (children : List (FileName × Node))
  | file (mode : Nat) (content : List UInt8)
  | symlink (mode : Nat) (target : String)
  | special (mode : Nat)

/-- An absolute path, resolved. -/
abbrev Path := List String

def pathText (path : Path) : String := "/" ++ joinStrings "/" path

/-- `path.relative`. -/
def relative : Path → Path → Path
  | [], target => target
  | source, [] => source.map fun _ => ".."
  | a :: source, b :: target => if a = b then relative source target else (a :: source).map (fun _ => "..") ++ b :: target

/-- `path.resolve(directory, target)` of a relative target. -/
def resolve (directory : Path) (target : String) : Path :=
  let kept := (splitOn '/' target.toList).foldl (pushSegment false) (directory.map String.toList).reverse
  kept.reverse.map String.ofList

/-! ## `release-tree.ts` -/

/-- The type of an entry, with what the digest reads of it. -/
inductive EntryType where
  | directory
  | file (content : List UInt8)
  | symlink (symlinkTarget : String)
  deriving DecidableEq

def EntryType.name : EntryType → String
  | .directory => "directory"
  | .file _ => "file"
  | .symlink _ => "symlink"

structure ReleaseTreeEntry where
  absolutePath : Path
  relativePath : String
  executableMode : Nat
  type : EntryType
  deriving DecidableEq

def staysWithinRoot (root candidate : Path) : Bool :=
  let relative := relative root candidate
  relative = [] || relative.head? != some ".."

/-- `mode & 0o111`. -/
def executableBits (mode : Nat) : Nat := mode &&& 0o111

/-- One list after another; the first error is thrown. -/
def inTurn {α : Type} : List (Except String (List α)) → Except String (List α)
  | [] => .ok []
  | result :: rest => do
    let entries ← result
    let others ← inTurn rest
    return entries ++ others

/-- `left.name < right.name`, or no order. -/
def byName {α : Type} (left right : FileName × α) : Bool := unitsLe left.1.text right.1.text

section Walk

variable (realpath : Path → Except String Path) (rootDirectory physicalRoot : Path)

mutual

/-- The entries of a child and of all below it. -/
def visitChild (directory : Path) (name : FileName) : Node → Except String (List ReleaseTreeEntry)
  | .directory mode children => do
    let absolutePath := directory ++ [name.text]
    let inside ← inTurn (((visitEach absolutePath children).mergeSort byName).map (·.2))
    return ⟨absolutePath, joinStrings "/" (relative rootDirectory absolutePath), executableBits mode, .directory⟩ :: inside
  | .file mode content =>
    let absolutePath := directory ++ [name.text]
    return [⟨absolutePath, joinStrings "/" (relative rootDirectory absolutePath), executableBits mode, .file content⟩]
  | .symlink mode symlinkTarget =>
    let absolutePath := directory ++ [name.text]
    let relativePath := joinStrings "/" (relative rootDirectory absolutePath)
    let escapes := "Symlink escapes the release tree: " ++ relativePath ++ " -> " ++ symlinkTarget
    if startsWith symlinkTarget "/" then .error escapes
    else if staysWithinRoot rootDirectory (resolve directory symlinkTarget) = false then .error escapes
    else match realpath absolutePath with
      | .error _ => .error ("Release symlink is broken: " ++ relativePath ++ " -> " ++ symlinkTarget)
      | .ok physicalTarget =>
        if staysWithinRoot physicalRoot physicalTarget = false then .error escapes
        else return [⟨absolutePath, relativePath, executableBits mode, .symlink symlinkTarget⟩]
  | .special _ => .error ("Release contains a special file: " ++
      joinStrings "/" (relative rootDirectory (directory ++ [name.text])))

def visitEach (directory : Path) : List (FileName × Node) → List (FileName × Except String (List ReleaseTreeEntry))
  | [] => []
  | (name, node) :: children => (name, visitChild directory name node) :: visitEach directory children

end

def visit (directory : Path) (children : List (FileName × Node)) : Except String (List ReleaseTreeEntry) :=
  inTurn (((visitEach realpath rootDirectory physicalRoot directory children).mergeSort byName).map (·.2))

def collectReleaseTreeEntries : Node → Except String (List ReleaseTreeEntry)
  | .directory _ children => do
    let physicalRoot ← realpath rootDirectory
    visit realpath rootDirectory physicalRoot rootDirectory children
  | _ => .error ("Release root must be a physical directory: " ++ pathText rootDirectory)

end Walk

def updateDigestField (value : String) : List UInt8 :=
  utf8 (digits 10 (utf8 value).length) ++ utf8 ":" ++ utf8 value

/-- What follows the fields that every entry has. -/
def EntryType.bytes : EntryType → List UInt8
  | .directory => []
  | .file content => updateDigestField (digits 10 content.length) ++ content
  | .symlink symlinkTarget => updateDigestField symlinkTarget

def entryBytes (entry : ReleaseTreeEntry) : List UInt8 :=
  updateDigestField entry.relativePath ++ updateDigestField entry.type.name ++
    updateDigestField (digits 8 entry.executableMode) ++ entry.type.bytes

/-- What is fed to the hash. -/
def digestStream (entries : List ReleaseTreeEntry) : List UInt8 := entries.flatMap entryBytes

def digestReleaseTree (sha256 : List UInt8 → String) (realpath : Path → Except String Path) (rootDirectory : Path)
    (tree : Node) : Except String String := do
  let entries ← collectReleaseTreeEntries realpath rootDirectory tree
  return sha256 (digestStream entries)

/-- The release at the path, when there is one. -/
def verifyExistingRelease (sha256 : List UInt8 → String) (realpath : Path → Except String Path) (releaseDirectory : Path)
    (found : Option Node) (expectedDigest : String) : Except String Unit :=
  match found with
  | some (.directory mode children) => do
    let observedDigest ← digestReleaseTree sha256 realpath releaseDirectory (.directory mode children)
    if observedDigest ≠ expectedDigest then
      .error ("Content-addressed release failed digest verification: " ++ pathText releaseDirectory)
    else return ()
  | _ => .error ("Content-addressed release path is not a directory: " ++ pathText releaseDirectory)

/-! ## The stream tells the entries -/

theorem updateDigestField_prefixFree : PrefixFree updateDigestField := by
  have hinjective : (fun n => utf8 (digits 10 n)).Injective := utf8_injective.comp (digits_injective (by decide) (by decide))
  have hheader : PrefixFree fun n => utf8 (digits 10 n) ++ utf8 ":" := PrefixFree.ended hinjective colon_not_mem_digits
  exact hheader.counted.comp utf8_injective

theorem updateDigestField_ne_nil (value : String) : updateDigestField value ≠ [] := by
  intro h
  have hcolon := (List.append_eq_nil_iff.mp (List.append_eq_nil_iff.mp h).1).2
  exact absurd hcolon (by decide)

/-- What the digest tells of an entry beside its path. -/
structure Label where
  executableMode : Nat
  type : EntryType
  deriving DecidableEq

def ReleaseTreeEntry.label (entry : ReleaseTreeEntry) : String × Label :=
  (entry.relativePath, ⟨entry.executableMode, entry.type⟩)

def labelBytes (label : String × Label) : List UInt8 :=
  updateDigestField label.1 ++ updateDigestField label.2.type.name ++
    updateDigestField (digits 8 label.2.executableMode) ++ label.2.type.bytes

/-- The name of a type tells which bytes follow. -/
theorem EntryType.bytes_read {a b : EntryType} {x y : List UInt8} (hname : a.name = b.name)
    (h : a.bytes ++ x = b.bytes ++ y) : a = b ∧ x = y := by
  cases a with
  | directory =>
    cases b with
    | directory => exact ⟨rfl, h⟩
    | file _ => exact absurd (show "directory" = "file" from hname) (by decide)
    | symlink _ => exact absurd (show "directory" = "symlink" from hname) (by decide)
  | file content =>
    cases b with
    | directory => exact absurd (show "file" = "directory" from hname) (by decide)
    | file content' =>
      have hheader := updateDigestField_prefixFree.comp (@digits_injective 10 (by decide) (by decide))
      obtain ⟨rfl, hxy⟩ := hheader.counted content content' x y h
      exact ⟨rfl, hxy⟩
    | symlink _ => exact absurd (show "file" = "symlink" from hname) (by decide)
  | symlink target =>
    cases b with
    | directory => exact absurd (show "symlink" = "directory" from hname) (by decide)
    | file _ => exact absurd (show "symlink" = "file" from hname) (by decide)
    | symlink target' =>
      obtain ⟨rfl, hxy⟩ := updateDigestField_prefixFree target target' x y h
      exact ⟨rfl, hxy⟩

theorem labelBytes_prefixFree : PrefixFree labelBytes := by
  intro a b x y h
  obtain ⟨path, mode, type⟩ := a
  obtain ⟨path', mode', type'⟩ := b
  unfold labelBytes at h
  simp only [List.append_assoc] at h
  obtain ⟨hpath, hafterPath⟩ := updateDigestField_prefixFree _ _ _ _ h
  obtain ⟨hname, hafterName⟩ := updateDigestField_prefixFree _ _ _ _ hafterPath
  obtain ⟨hdigits, hafterMode⟩ := updateDigestField_prefixFree _ _ _ _ hafterName
  have hmode := @digits_injective 8 (by decide) (by decide) _ _ hdigits
  obtain ⟨htype, hxy⟩ := EntryType.bytes_read hname hafterMode
  rw [hpath, hmode, htype]
  exact ⟨rfl, hxy⟩

theorem labelBytes_ne_nil (label : String × Label) : labelBytes label ≠ [] := by
  intro h
  unfold labelBytes at h
  simp only [List.append_assoc] at h
  exact updateDigestField_ne_nil label.1 (List.append_eq_nil_iff.mp h).1

theorem digestStream_inj {entries entries' : List ReleaseTreeEntry} :
    digestStream entries = digestStream entries' ↔ entries.map ReleaseTreeEntry.label = entries'.map ReleaseTreeEntry.label := by
  have hstream : ∀ entries, digestStream entries = (entries.map ReleaseTreeEntry.label).flatMap labelBytes := by
    intro entries
    rw [List.flatMap_map]
    rfl
  rw [hstream, hstream]
  constructor
  · exact labelBytes_prefixFree.flatMap_inj labelBytes_ne_nil
  · intro h
    rw [h]

/-! ## Trees -/

/-- No two children of a directory have one name. -/
inductive SiblingsDistinct : Node → Prop where
  | directory {mode : Nat} {children : List (FileName × Node)} : (children.map (·.1)).Nodup →
      (∀ child ∈ children, SiblingsDistinct child.2) → SiblingsDistinct (.directory mode children)
  | file (mode : Nat) (content : List UInt8) : SiblingsDistinct (.file mode content)
  | symlink (mode : Nat) (target : String) : SiblingsDistinct (.symlink mode target)
  | special (mode : Nat) : SiblingsDistinct (.special mode)

namespace Node

def label : Node → Option Label
  | .directory mode _ => some ⟨executableBits mode, .directory⟩
  | .file mode content => some ⟨executableBits mode, .file content⟩
  | .symlink mode target => some ⟨executableBits mode, .symlink target⟩
  | .special _ => none

/-- The node below this one. -/
def descend : Node → List FileName → Option Node
  | node, [] => some node
  | .directory _ children, name :: path => match children.find? (·.1 = name) with
    | some child => child.2.descend path
    | none => none
  | _, _ :: _ => none

/-- The type, the executable bits and the bytes or the target at a path. -/
def entryAt (node : Node) (path : List FileName) : Option Label := (node.descend path).bind label

theorem induct {P : Node → Prop} (hdirectory : ∀ mode children, (∀ child ∈ children, P child.2) → P (.directory mode children))
    (hfile : ∀ mode content, P (.file mode content)) (hsymlink : ∀ mode target, P (.symlink mode target))
    (hspecial : ∀ mode, P (.special mode)) (node : Node) : P node := by
  refine @Node.rec P (fun children => ∀ child ∈ children, P child.2) (fun child => P child.2) hdirectory hfile hsymlink
    hspecial ?_ ?_ (fun _ _ h => h) node
  · exact fun child h => absurd h List.not_mem_nil
  · intro child children hchild hchildren other hother
    rcases List.mem_cons.mp hother with rfl | hother
    · exact hchild
    · exact hchildren other hother

end Node

/-- The trees have the same entries at the same paths. -/
def Agree (tree tree' : Node) : Prop := ∀ path, path ≠ [] → tree.entryAt path = tree'.entryAt path

/-! ## The entries in order -/

theorem unitsLe_iff {a b : String} : unitsLe a b = true ↔ a.toList.flatMap codeUnits ≤ b.toList.flatMap codeUnits := by
  unfold unitsLe
  rw [Bool.not_eq_true', decide_eq_false_iff_not, not_lt]

theorem units_injective {a b : String} (h : a.toList.flatMap codeUnits = b.toList.flatMap codeUnits) : a = b := by
  have hchars := congrArg ofUnits h
  rw [ofUnits_codeUnits, ofUnits_codeUnits] at hchars
  exact String.toList_inj.mp hchars

/-- The code units of a name. -/
def FileName.units (name : FileName) : List Nat := name.text.toList.flatMap codeUnits

theorem FileName.ext {a b : FileName} (h : a.text = b.text) : a = b := by
  cases a
  cases b
  cases h
  rfl

section Order

variable {α : Type}

theorem byName_pairwise (items : List (FileName × α)) :
    (items.mergeSort byName).Pairwise fun left right => left.1.units ≤ right.1.units := by
  have hsorted : (items.mergeSort byName).Pairwise fun left right => byName left right = true := by
    apply List.pairwise_mergeSort
    · intro a b c hab hbc
      exact unitsLe_iff.mpr (le_trans (unitsLe_iff.mp hab) (unitsLe_iff.mp hbc))
    · intro a b
      rw [Bool.or_eq_true]
      exact (le_total a.1.units b.1.units).imp unitsLe_iff.mpr unitsLe_iff.mpr
  exact hsorted.imp unitsLe_iff.mp

/-- Names in order, none twice. -/
theorem byName_strict {items : List (FileName × α)} (hnodup : (items.map (·.1)).Nodup) :
    (items.mergeSort byName).Pairwise fun left right => left.1.units < right.1.units := by
  have hne : (items.mergeSort byName).Pairwise fun left right => left.1 ≠ right.1 := by
    have hperm := (List.mergeSort_perm items byName).map (·.1)
    exact List.pairwise_map.mp (hperm.nodup_iff.mpr hnodup)
  refine ((byName_pairwise items).and hne).imp fun hboth => ?_
  exact lt_of_le_of_ne hboth.1 fun hunits => hboth.2 (FileName.ext (units_injective hunits))

end Order

/-- What the digest tells of a tree: each path with its entry, in the order of the walk. -/
def inOrder (blocks : List (FileName × List (List FileName × Label))) : List (List FileName × Label) :=
  (blocks.mergeSort byName).flatMap (·.2)

mutual

def block (name : FileName) : Node → List (List FileName × Label)
  | .directory mode children =>
    ([name], ⟨executableBits mode, .directory⟩) :: (inOrder (blocks children)).map fun item => (name :: item.1, item.2)
  | .file mode content => [([name], ⟨executableBits mode, .file content⟩)]
  | .symlink mode target => [([name], ⟨executableBits mode, .symlink target⟩)]
  | .special _ => []

def blocks : List (FileName × Node) → List (FileName × List (List FileName × Label))
  | [] => []
  | (name, node) :: children => (name, block name node) :: blocks children

end

def listing (children : List (FileName × Node)) : List (List FileName × Label) := inOrder (blocks children)

theorem blocks_eq (children : List (FileName × Node)) :
    blocks children = children.map fun child => (child.1, block child.1 child.2) := by
  induction children with
  | nil => rfl
  | cons child children ih => rw [List.map_cons, ← ih]; rfl

theorem mem_listing {children : List (FileName × Node)} {item : List FileName × Label} :
    item ∈ listing children ↔ ∃ child ∈ children, item ∈ block child.1 child.2 := by
  unfold listing inOrder
  rw [List.mem_flatMap, blocks_eq]
  constructor
  · intro h
    obtain ⟨pair, hpair, hitem⟩ := h
    obtain ⟨child, hchild, rfl⟩ := List.mem_map.mp (List.mem_mergeSort.mp hpair)
    exact ⟨child, hchild, hitem⟩
  · intro h
    obtain ⟨child, hchild, hitem⟩ := h
    exact ⟨_, List.mem_mergeSort.mpr (List.mem_map.mpr ⟨child, hchild, rfl⟩), hitem⟩

theorem block_directory (name : FileName) (mode : Nat) (children : List (FileName × Node)) :
    block name (.directory mode children) =
      ([name], ⟨executableBits mode, .directory⟩) :: (listing children).map fun item => (name :: item.1, item.2) := rfl

/-- The child of a name, where each name is of one child. -/
theorem find_child {children : List (FileName × Node)} (hnodup : (children.map (·.1)).Nodup) {child : FileName × Node}
    (hchild : child ∈ children) : children.find? (·.1 = child.1) = some child := by
  induction children with
  | nil => exact absurd hchild List.not_mem_nil
  | cons other children ih =>
    rw [List.map_cons, List.nodup_cons] at hnodup
    rcases List.mem_cons.mp hchild with rfl | hmem
    · rw [List.find?_cons_of_pos (by simp)]
    · have hother : other.1 ≠ child.1 := fun heq => hnodup.1 (heq ▸ List.mem_map_of_mem hmem)
      rw [List.find?_cons_of_neg (by simpa using hother)]
      exact ih hnodup.2 hmem

/-- A block holds the entries at and below its node, each at its path. -/
theorem mem_block {node : Node} (hdistinct : SiblingsDistinct node) (name : FileName) (path : List FileName) (label : Label) :
    (path, label) ∈ block name node ↔ ∃ rest, path = name :: rest ∧ node.entryAt rest = some label := by
  induction node using Node.induct generalizing name path with
  | hfile mode content =>
    constructor
    · intro h
      obtain ⟨rfl, rfl⟩ := Prod.mk.inj (List.mem_singleton.mp h)
      exact ⟨[], rfl, rfl⟩
    · intro h
      obtain ⟨rest, rfl, hentry⟩ := h
      cases rest with
      | nil => cases hentry; exact List.mem_singleton.mpr rfl
      | cons next rest => cases hentry
  | hsymlink mode target =>
    constructor
    · intro h
      obtain ⟨rfl, rfl⟩ := Prod.mk.inj (List.mem_singleton.mp h)
      exact ⟨[], rfl, rfl⟩
    · intro h
      obtain ⟨rest, rfl, hentry⟩ := h
      cases rest with
      | nil => cases hentry; exact List.mem_singleton.mpr rfl
      | cons next rest => cases hentry
  | hspecial mode =>
    constructor
    · exact fun h => absurd h List.not_mem_nil
    · intro h
      obtain ⟨rest, -, hentry⟩ := h
      cases rest with
      | nil => cases hentry
      | cons next rest => cases hentry
  | hdirectory mode children ih =>
    cases hdistinct with
    | directory hnodup hchildren =>
      rw [block_directory, List.mem_cons, List.mem_map]
      constructor
      · intro h
        rcases h with h | h
        · obtain ⟨rfl, rfl⟩ := Prod.mk.inj h
          exact ⟨[], rfl, rfl⟩
        · obtain ⟨item, hitem, heq⟩ := h
          obtain ⟨rfl, rfl⟩ := Prod.mk.inj heq
          obtain ⟨child, hchild, hitem⟩ := mem_listing.mp hitem
          obtain ⟨rest, hrest, hentry⟩ := (ih child hchild (hchildren child hchild) child.1 item.1).mp hitem
          refine ⟨item.1, rfl, ?_⟩
          unfold Node.entryAt at hentry ⊢
          rw [hrest, Node.descend, find_child hnodup hchild]
          exact hentry
      · intro h
        obtain ⟨rest, rfl, hentry⟩ := h
        cases rest with
        | nil => cases hentry; exact .inl rfl
        | cons next rest =>
          right
          unfold Node.entryAt at hentry
          rw [Node.descend] at hentry
          cases hfind : children.find? (·.1 = next) with
          | none => rw [hfind] at hentry; cases hentry
          | some child =>
            rw [hfind] at hentry
            have hchild := List.mem_of_find?_eq_some hfind
            have hname : child.1 = next := by simpa using List.find?_some hfind
            refine ⟨(next :: rest, label), mem_listing.mpr ⟨child, hchild, ?_⟩, rfl⟩
            exact (ih child hchild (hchildren child hchild) child.1 _).mpr ⟨rest, by rw [hname], hentry⟩

/-- The order of two paths: of the first names that differ, or of the lengths. -/
def Before (left right : List FileName × Label) : Prop := left.1.map FileName.units < right.1.map FileName.units

theorem Before.cons (name : FileName) {left right : List FileName × Label} (h : Before left right) :
    Before (name :: left.1, left.2) (name :: right.1, right.2) := by
  unfold Before at h ⊢
  rw [List.map_cons, List.map_cons, List.cons_lt_cons_self]
  exact h

theorem Before.ne {left right : List FileName × Label} (h : Before left right) : left ≠ right := by
  intro heq
  subst heq
  exact lt_irrefl _ h

/-- Blocks in order make a listing in order. -/
theorem listing_ordered {children : List (FileName × Node)} (hnodup : (children.map (·.1)).Nodup)
    (hdistinct : ∀ child ∈ children, SiblingsDistinct child.2)
    (hblocks : ∀ child ∈ children, (block child.1 child.2).Pairwise Before) : (listing children).Pairwise Before := by
  unfold listing inOrder
  rw [List.pairwise_flatMap]
  have hnames : ((blocks children).map (·.1)).Nodup := by
    rw [blocks_eq, List.map_map]
    exact hnodup
  have hchild : ∀ pair ∈ (blocks children).mergeSort byName, ∃ child ∈ children, pair = (child.1, block child.1 child.2) := by
    intro pair hpair
    rw [List.mem_mergeSort, blocks_eq] at hpair
    obtain ⟨child, hchild, rfl⟩ := List.mem_map.mp hpair
    exact ⟨child, hchild, rfl⟩
  constructor
  · intro pair hpair
    obtain ⟨child, hmem, rfl⟩ := hchild pair hpair
    exact hblocks child hmem
  · refine (byName_strict hnames).imp_of_mem fun {left right} hleft hright hlt => ?_
    obtain ⟨child, hmem, rfl⟩ := hchild left hleft
    obtain ⟨child', hmem', rfl⟩ := hchild right hright
    intro item hitem item' hitem'
    obtain ⟨rest, hrest, -⟩ := (mem_block (hdistinct child hmem) child.1 item.1 item.2).mp hitem
    obtain ⟨rest', hrest', -⟩ := (mem_block (hdistinct child' hmem') child'.1 item'.1 item'.2).mp hitem'
    unfold Before
    rw [hrest, hrest', List.map_cons, List.map_cons]
    exact List.cons_lt_cons_iff.mpr (.inl hlt)

theorem block_ordered {node : Node} (hdistinct : SiblingsDistinct node) (name : FileName) :
    (block name node).Pairwise Before := by
  induction node using Node.induct generalizing name with
  | hfile mode content => exact List.pairwise_singleton _ _
  | hsymlink mode target => exact List.pairwise_singleton _ _
  | hspecial mode => exact List.Pairwise.nil
  | hdirectory mode children ih =>
    cases hdistinct with
    | directory hnodup hchildren =>
      have hinside := listing_ordered hnodup hchildren fun child hchild => ih child hchild (hchildren child hchild) child.1
      rw [block_directory, List.pairwise_cons]
      constructor
      · intro item hitem
        obtain ⟨inner, hinner, rfl⟩ := List.mem_map.mp hitem
        obtain ⟨child, hchild, hblock⟩ := mem_listing.mp hinner
        obtain ⟨rest, hrest, -⟩ := (mem_block (hchildren child hchild) child.1 inner.1 inner.2).mp hblock
        unfold Before
        rw [hrest, List.map_cons, List.map_cons, List.cons_lt_cons_self]
        exact List.nil_lt_cons _ _
      · exact List.pairwise_map.mpr (hinside.imp fun h => h.cons name)

section Children

variable {mode mode' : Nat} {children children' : List (FileName × Node)}

/-- A listing holds the entries of the tree, each at its path. -/
theorem mem_listing_iff (hdistinct : SiblingsDistinct (.directory mode children)) (path : List FileName) (label : Label) :
    (path, label) ∈ listing children ↔ path ≠ [] ∧ (Node.directory mode children).entryAt path = some label := by
  let name : FileName := ⟨"a", by decide⟩
  have hblock := mem_block hdistinct name (name :: path) label
  rw [block_directory, List.mem_cons, List.mem_map] at hblock
  constructor
  · intro hitem
    obtain ⟨rest, hrest, hentry⟩ := hblock.mp (.inr ⟨(path, label), hitem, rfl⟩)
    obtain ⟨-, rfl⟩ := List.cons.inj hrest
    obtain ⟨child, hchild, hitem⟩ := mem_listing.mp hitem
    cases hdistinct with
    | directory _ hchildren =>
      obtain ⟨below, rfl, -⟩ := (mem_block (hchildren child hchild) child.1 _ label).mp hitem
      exact ⟨List.cons_ne_nil _ _, hentry⟩
  · intro h
    obtain ⟨hne, hentry⟩ := h
    rcases hblock.mpr ⟨path, rfl, hentry⟩ with heq | hitem
    · exact absurd (List.cons.inj (Prod.mk.inj heq).1).2 hne
    · obtain ⟨item, hitem, heq⟩ := hitem
      obtain ⟨hpath, hlabel⟩ := Prod.mk.inj heq
      obtain ⟨-, rfl⟩ := List.cons.inj hpath
      cases hlabel
      exact hitem

theorem listing_ordered_of (hdistinct : SiblingsDistinct (.directory mode children)) : (listing children).Pairwise Before := by
  cases hdistinct with
  | directory hnodup hchildren => exact listing_ordered hnodup hchildren fun child hchild => block_ordered (hchildren child hchild) child.1

/-- Trees that agree are listed alike: the entries are the same, and there is one order. -/
theorem listing_eq_of_agree (hdistinct : SiblingsDistinct (.directory mode children))
    (hdistinct' : SiblingsDistinct (.directory mode' children'))
    (hagree : Agree (.directory mode children) (.directory mode' children')) : listing children = listing children' := by
  have hordered := listing_ordered_of hdistinct
  have hordered' := listing_ordered_of hdistinct'
  have hnodup : ∀ {items : List (List FileName × Label)}, items.Pairwise Before → items.Nodup :=
    fun h => h.imp Before.ne
  refine List.Perm.eq_of_pairwise ?_ hordered hordered' ?_
  · intro left right _ _ hlt hgt
    exact absurd (lt_trans hlt hgt) (lt_irrefl _)
  · rw [List.perm_ext_iff_of_nodup (hnodup hordered) (hnodup hordered')]
    intro item
    obtain ⟨path, label⟩ := item
    rw [mem_listing_iff hdistinct, mem_listing_iff hdistinct']
    constructor
    · exact fun h => ⟨h.1, hagree path h.1 ▸ h.2⟩
    · exact fun h => ⟨h.1, (hagree path h.1).symm ▸ h.2⟩

end Children

/-! ## The walk -/

theorem relative_append (root : Path) (rest : Path) : relative root (root ++ rest) = rest := by
  induction root with
  | nil => rw [List.nil_append, relative]
  | cons name root ih =>
    rw [List.cons_append, relative, if_pos rfl]
    exact ih

def pathName (path : List FileName) : String := joinStrings "/" (path.map FileName.text)

/-- The names of a path can be read from its text. -/
theorem pathName_injective {path path' : List FileName} (hne : path ≠ []) (hne' : path' ≠ [])
    (h : pathName path = pathName path') : path = path' := by
  have hread : ∀ {path : List FileName}, path ≠ [] →
      splitOn '/' (pathName path).toList = path.map fun name => name.text.toList := by
    intro path hne
    unfold pathName joinStrings
    rw [String.toList_ofList, show "/".toList = ['/'] from rfl, splitOn_joinWith, List.map_map]
    · rfl
    · simpa using hne
    · intro chars hchars
      obtain ⟨text, htext, rfl⟩ := List.mem_map.mp hchars
      obtain ⟨name, -, rfl⟩ := List.mem_map.mp htext
      exact name.valid.2
  have htexts := (hread hne).symm.trans ((congrArg (fun text => splitOn '/' text.toList) h).trans (hread hne'))
  exact List.map_injective_iff.mpr (fun a b hab => FileName.ext (String.toList_inj.mp hab)) htexts

theorem inTurn_eq_ok {α β : Type} {results : List (Except String (List α))} {entries : List α} {f : α → β} {expected : List (List β)}
    (hresults : List.Forall₂ (fun result part => ∀ found, result = .ok found → found.map f = part) results expected)
    (h : inTurn results = .ok entries) : entries.map f = expected.flatten := by
  induction hresults generalizing entries with
  | nil => cases h; rfl
  | @cons result part results expected hresult _ ih =>
    cases result with
    | error message => cases h
    | ok found =>
      cases hothers : inTurn results with
      | error message => rw [inTurn, hothers] at h; cases h
      | ok others =>
        rw [inTurn, hothers] at h
        cases h
        rw [List.map_append, hresult found rfl, ih hothers, List.flatten_cons]

section Walk

variable {realpath : Path → Except String Path} {rootDirectory physicalRoot : Path}

theorem visitEach_eq (directory : Path) (children : List (FileName × Node)) :
    visitEach realpath rootDirectory physicalRoot directory children =
      children.map fun child => (child.1, visitChild realpath rootDirectory physicalRoot directory child.1 child.2) := by
  induction children with
  | nil => rfl
  | cons child children ih => rw [List.map_cons, ← ih]; rfl

theorem byName_map {α β : Type} (f : FileName × α → β) (children : List (FileName × α)) :
    (children.map fun child => (child.1, f child)).mergeSort byName =
      (children.mergeSort byName).map fun child => (child.1, f child) :=
  (List.map_mergeSort (r := byName) (s := byName) (f := fun child => (child.1, f child)) fun _ _ _ _ => rfl).symm

/-- What is below a directory is listed when every child's entries are its block. -/
theorem visit_listing {directory : Path} {above : List FileName} {children : List (FileName × Node)} {entries : List ReleaseTreeEntry}
    (hchildren : ∀ child ∈ children, ∀ found, visitChild realpath rootDirectory physicalRoot directory child.1 child.2 = .ok found →
      found.map ReleaseTreeEntry.label = (block child.1 child.2).map fun item => (pathName (above ++ item.1), item.2))
    (h : visit realpath rootDirectory physicalRoot directory children = .ok entries) :
    entries.map ReleaseTreeEntry.label = (listing children).map fun item => (pathName (above ++ item.1), item.2) := by
  unfold visit at h
  rw [visitEach_eq, byName_map (fun child => visitChild realpath rootDirectory physicalRoot directory child.1 child.2),
    List.map_map] at h
  have hparts := @inTurn_eq_ok _ _ _ _ ReleaseTreeEntry.label
    ((children.mergeSort byName).map fun child =>
      (block child.1 child.2).map fun item => (pathName (above ++ item.1), item.2)) ?_ h
  · rw [hparts]
    unfold listing inOrder
    rw [blocks_eq, byName_map (fun child => block child.1 child.2), List.map_flatMap, List.flatMap_map]
    rfl
  · rw [List.forall₂_map_left_iff, List.forall₂_map_right_iff, List.forall₂_same]
    intro child hchild
    exact hchildren child (List.mem_mergeSort.mp hchild)

theorem child_path {directory : Path} {above : List FileName} (hdirectory : directory = rootDirectory ++ above.map FileName.text)
    (name : FileName) : directory ++ [name.text] = rootDirectory ++ (above ++ [name]).map FileName.text ∧
      joinStrings "/" (relative rootDirectory (directory ++ [name.text])) = pathName (above ++ [name]) := by
  have hinside : directory ++ [name.text] = rootDirectory ++ (above ++ [name]).map FileName.text := by
    rw [hdirectory, List.map_append, List.append_assoc]
    rfl
  refine ⟨hinside, ?_⟩
  rw [hinside, relative_append]
  rfl

theorem visitChild_block (node : Node) (directory : Path) (above : List FileName) (name : FileName)
    (hdirectory : directory = rootDirectory ++ above.map FileName.text) (entries : List ReleaseTreeEntry)
    (h : visitChild realpath rootDirectory physicalRoot directory name node = .ok entries) :
    entries.map ReleaseTreeEntry.label = (block name node).map fun item => (pathName (above ++ item.1), item.2) := by
  induction node using Node.induct generalizing directory above name entries with
  | hfile mode content =>
    rw [visitChild] at h
    cases h
    rw [List.map_singleton, ReleaseTreeEntry.label, (child_path hdirectory name).2]
    rfl
  | hsymlink mode target =>
    rw [visitChild] at h
    split at h
    · cases h
    · split at h
      · cases h
      · split at h
        · cases h
        · split at h
          · cases h
          · cases h
            rw [List.map_singleton, ReleaseTreeEntry.label, (child_path hdirectory name).2]
            rfl
  | hspecial mode =>
    rw [visitChild] at h
    cases h
  | hdirectory mode children ih =>
    obtain ⟨hinside, hpath⟩ := child_path hdirectory name
    have hwalk : visitChild realpath rootDirectory physicalRoot directory name (.directory mode children) = do
        let inside ← visit realpath rootDirectory physicalRoot (directory ++ [name.text]) children
        return ⟨directory ++ [name.text], joinStrings "/" (relative rootDirectory (directory ++ [name.text])),
          executableBits mode, .directory⟩ :: inside := rfl
    rw [hwalk] at h
    cases hvisit : visit realpath rootDirectory physicalRoot (directory ++ [name.text]) children with
    | error message => rw [hvisit] at h; cases h
    | ok found =>
      rw [hvisit] at h
      cases h
      have hfound := visit_listing (fun child hchild => ih child hchild (directory ++ [name.text]) (above ++ [name])
        child.1 hinside) hvisit
      rw [List.map_cons, hfound, ReleaseTreeEntry.label, hpath, block_directory, List.map_cons, List.map_map]
      refine congrArg _ (List.map_congr_left fun item _ => ?_)
      rw [List.append_assoc]
      rfl

end Walk

/-- Trees whose listings have one text have the same entries. -/
theorem entryAt_of_listing {mode mode' : Nat} {children children' : List (FileName × Node)}
    (hdistinct : SiblingsDistinct (.directory mode children)) (hdistinct' : SiblingsDistinct (.directory mode' children'))
    (hsame : (listing children).map (fun item => (pathName item.1, item.2)) =
      (listing children').map fun item => (pathName item.1, item.2))
    {path : List FileName} {label : Label} (hne : path ≠ []) (hentry : (Node.directory mode children).entryAt path = some label) :
    (Node.directory mode' children').entryAt path = some label := by
  have hlisted : (path, label) ∈ listing children := (mem_listing_iff hdistinct path label).mpr ⟨hne, hentry⟩
  have hmapped := List.mem_map_of_mem (f := fun item : List FileName × Label => (pathName item.1, item.2)) hlisted
  rw [hsame] at hmapped
  obtain ⟨item, hitem, heq⟩ := List.mem_map.mp hmapped
  obtain ⟨hpath, rfl⟩ := Prod.mk.inj heq
  obtain ⟨hitemNe, hfound⟩ := (mem_listing_iff hdistinct' item.1 item.2).mp hitem
  rw [← pathName_injective hitemNe hne hpath]
  exact hfound

/-- An accepted release is a directory, and its entries are its listing. -/
theorem collect_listing {realpath : Path → Except String Path} {rootDirectory : Path} {tree : Node} {entries : List ReleaseTreeEntry}
    (h : collectReleaseTreeEntries realpath rootDirectory tree = .ok entries) :
    ∃ mode children, tree = .directory mode children ∧
      entries.map ReleaseTreeEntry.label = (listing children).map fun item => (pathName item.1, item.2) := by
  cases tree with
  | directory mode children =>
    rw [collectReleaseTreeEntries] at h
    cases hroot : realpath rootDirectory with
    | error message => rw [hroot] at h; cases h
    | ok physicalRoot =>
      rw [hroot] at h
      refine ⟨mode, children, rfl, ?_⟩
      exact @visit_listing _ _ _ _ [] _ _ (fun child _ => visitChild_block child.2 rootDirectory [] child.1
        (List.append_nil _).symm) h
  | file mode content => cases h
  | symlink mode target => cases h
  | special mode => cases h

/-- The bytes fed to the hash tell the release, and a release with the digest of another is
    that other's tree, where the two streams do not collide. -/
theorem digest_determines_release {realpath realpath' : Path → Except String Path} {rootDirectory rootDirectory' : Path}
    {tree tree' : Node} {entries entries' : List ReleaseTreeEntry} (hdistinct : SiblingsDistinct tree)
    (hdistinct' : SiblingsDistinct tree') (haccepted : collectReleaseTreeEntries realpath rootDirectory tree = .ok entries)
    (haccepted' : collectReleaseTreeEntries realpath' rootDirectory' tree' = .ok entries') :
    (digestStream entries = digestStream entries' ↔ Agree tree tree') ∧
    ∀ sha256 : List UInt8 → String,
      (sha256 (digestStream entries) = sha256 (digestStream entries') → digestStream entries = digestStream entries') →
      (verifyExistingRelease sha256 realpath rootDirectory (some tree) (sha256 (digestStream entries')) = .ok () ↔
        Agree tree tree') := by
  obtain ⟨mode, children, rfl, hlabels⟩ := collect_listing haccepted
  obtain ⟨mode', children', rfl, hlabels'⟩ := collect_listing haccepted'
  have hstream : digestStream entries = digestStream entries' ↔ Agree (.directory mode children) (.directory mode' children') := by
    rw [digestStream_inj, hlabels, hlabels']
    constructor
    · intro hsame path hne
      refine Option.ext fun label => ?_
      exact ⟨entryAt_of_listing hdistinct hdistinct' hsame hne, entryAt_of_listing hdistinct' hdistinct hsame.symm hne⟩
    · intro hagree
      rw [listing_eq_of_agree hdistinct hdistinct' hagree]
  refine ⟨hstream, fun sha256 hcollision => ?_⟩
  have hverify : verifyExistingRelease sha256 realpath rootDirectory (some (.directory mode children))
      (sha256 (digestStream entries')) =
      if sha256 (digestStream entries) ≠ sha256 (digestStream entries') then
        .error ("Content-addressed release failed digest verification: " ++ pathText rootDirectory)
      else .ok () := by
    unfold verifyExistingRelease digestReleaseTree
    dsimp only
    rw [haccepted]
    rfl
  rw [hverify, ← hstream]
  by_cases hdigest : sha256 (digestStream entries) = sha256 (digestStream entries')
  · rw [if_neg (not_not_intro hdigest)]
    exact ⟨fun _ => hcollision hdigest, fun _ => rfl⟩
  · rw [if_pos hdigest]
    constructor
    · intro h
      cases h
    · exact fun h => absurd (congrArg sha256 h) hdigest

/-- A release with one file and a link to it. -/
def sampleRelease (mode : Nat) : Node :=
  .directory 0o755 [(⟨"link", by decide⟩, .symlink 0o777 "bin/cli"),
    (⟨"bin", by decide⟩, .directory 0o755 [(⟨"cli", by decide⟩, .file mode [104, 105])])]

theorem sampleRelease_distinct (mode : Nat) : SiblingsDistinct (sampleRelease mode) := by
  refine .directory (show [(⟨"link", by decide⟩ : FileName), ⟨"bin", by decide⟩].Nodup by decide) fun child hchild => ?_
  rcases List.mem_cons.mp hchild with rfl | hchild
  · exact .symlink _ _
  · cases List.mem_singleton.mp hchild
    refine .directory (List.nodup_singleton _) fun child hchild => ?_
    cases List.mem_singleton.mp hchild
    exact .file _ _

theorem sampleRelease_accepted (mode : Nat) :
    ∃ entries, collectReleaseTreeEntries .ok ["r"] (sampleRelease mode) = .ok entries := by
  have hbin : unitsLe "link" "bin" = false := by decide
  have hrelative : startsWith "bin/cli" "/" = false := by decide
  have hinside : staysWithinRoot ["r"] (resolve ["r"] "bin/cli") = true := by decide
  have hphysical : staysWithinRoot ["r"] ["r", "link"] = true := by decide
  simp [collectReleaseTreeEntries, sampleRelease, visit, visitEach, visitChild, inTurn, List.mergeSort,
    List.MergeSort.Internal.splitInTwo, byName, hbin, hrelative, hinside, hphysical, bind, Except.bind, pure, Except.pure]

theorem executable_bit_told : ∃ entries entries', collectReleaseTreeEntries .ok ["r"] (sampleRelease 0o755) = .ok entries ∧
    collectReleaseTreeEntries .ok ["r"] (sampleRelease 0o644) = .ok entries' ∧ digestStream entries ≠ digestStream entries' := by
  obtain ⟨entries, h⟩ := sampleRelease_accepted 0o755
  obtain ⟨entries', h'⟩ := sampleRelease_accepted 0o644
  refine ⟨entries, entries', h, h', fun hstream => ?_⟩
  have hagree := (digest_determines_release (sampleRelease_distinct _) (sampleRelease_distinct _) h h').1.mp hstream
  have hentry := hagree [⟨"bin", by decide⟩, ⟨"cli", by decide⟩] (by decide)
  exact absurd hentry (by decide)

end GitCommitsPush.Installation
