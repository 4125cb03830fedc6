/-
  GitCommitsPush.Trust.IssuerStack — who may issue a trust token (`trust/src/index.ts`).

  A working directory is authorised when it is the source root, its `dist`, or the `dist` of an
  installed release. A stack text is authorised for it when it holds the path of a git helper of
  that directory before its end, a `:`, a `)` or a line end (`hasStackPathBoundary_iff`).

  Unicode normalisation and the file system's answers are parameters.
-/

import GitCommitsPush.Installation.StandaloneInstaller
import GitCommitsPush.Lib.PercentDecoding
import GitCommitsPush.Lib.PosixPath
import GitCommitsPush.Lib.TextSearch

namespace GitCommitsPush.Trust

open GitCommitsPush.Installation (isStandaloneReleaseName)
open GitCommitsPush.Lib.JsText
open GitCommitsPush.Lib.PercentDecoding
open GitCommitsPush.Lib.PosixPath
open GitCommitsPush.Lib.TextSearch

structure TrustEnvironment where
  /-- `normalize("NFC")`. -/
  nfc : List Char → List Char
  /-- `realpathSync`; nothing where it throws. -/
  realpath : String → Option String
  homedir : String
  workspaceRuntimeRoot : Option String

variable (env : TrustEnvironment)

/-! ## Working directories -/

def resolveSourceRuntimeRoot (homeDirectory : String) : String :=
  env.workspaceRuntimeRoot.getD (join [homeDirectory, "Developper", "Projects", "git-commits-push"])

def canonicalizeExistingPath (candidate : String) : String :=
  String.ofList (env.nfc ((env.realpath candidate).getD (normalize candidate)).toList)

def isReleaseRoot (current : String) : Bool :=
  isStandaloneReleaseName (basename current) && basename (dirname current) == "releases" &&
    basename (dirname (dirname current)) == "git-commits-push"

/-- The loop over a directory and those above it. -/
def releaseRootFrom : Nat → String → Option String
  | 0, _ => none
  | fuel + 1, current =>
    if dirname current = current then none
    else if isReleaseRoot current then some current
    else releaseRootFrom fuel (dirname current)

def installedReleaseRootForPath (candidate : String) : Option String :=
  let current := canonicalizeExistingPath env candidate
  releaseRootFrom (current.length + 2) current

def isInstalledReleaseWorkingDirectory (candidate : String) : Bool :=
  let normalizedCandidate := canonicalizeExistingPath env candidate
  if basename normalizedCandidate ≠ "dist" then false
  else
    let releaseRoot := dirname normalizedCandidate
    installedReleaseRootForPath env releaseRoot == some releaseRoot

def isAuthorizedTrustTokenIssuerWorkingDirectory (candidate homeDirectory : String) : Bool :=
  if isAbsolute candidate = false then false
  else
    let normalizedCandidate := canonicalizeExistingPath env candidate
    let sourceRuntimeRoot := canonicalizeExistingPath env (resolveSourceRuntimeRoot env homeDirectory)
    normalizedCandidate == sourceRuntimeRoot || normalizedCandidate == join [sourceRuntimeRoot, "dist"] ||
      isInstalledReleaseWorkingDirectory env normalizedCandidate

def authorizedIssuerPathsForWorkingDirectory (workingDirectory : String) : List String :=
  let sourceRuntimeRoot := resolveSourceRuntimeRoot env env.homedir
  if workingDirectory = sourceRuntimeRoot then
    [join [sourceRuntimeRoot, "src", "modules", "git", "git-exec.ts"],
      join [sourceRuntimeRoot, "src", "utils", "git-utils.ts"],
      join [sourceRuntimeRoot, "dist", "src", "modules", "git", "git-exec.js"],
      join [sourceRuntimeRoot, "dist", "src", "utils", "git-utils.js"]]
  else
    [join [workingDirectory, "src", "modules", "git", "git-exec.js"],
      join [workingDirectory, "src", "utils", "git-utils.js"]]

/-! ## Stack texts -/

/-- The character after an occurrence, if there is one, ends a path. -/
def isStackPathEnd (nextCharacter : Option Char) : Bool := match nextCharacter with
  | none => true
  | some c => c == ':' || c == ')' || c == '\n'

/-- The search from `searchIndex` on: the text left there. -/
def searchStackPath : Nat → List Char → List Char → Bool
  | 0, _, _ => false
  | fuel + 1, left, issuerPath =>
    if left = [] then false
    else match afterFirst issuerPath left with
      | none => false
      | some after => if isStackPathEnd after.head? then true else searchStackPath fuel after issuerPath

def hasStackPathBoundary (stack issuerPath : List Char) : Bool := searchStackPath stack.length stack issuerPath

/-- `replaceAll("\\", "/")`. -/
def forwardSlashes (path : List Char) : List Char := path.map fun c => if c = '\\' then '/' else c

def normalizeStackPaths (stack : List Char) : Option (List Char) := (decodeURI stack).map fun text => env.nfc (forwardSlashes text)

def isAuthorizedTrustTokenIssuerStack (stack : Option String) (workingDirectory : String) : Bool := match stack with
  | none => false
  | some stack =>
    if stack = "" ∨ isAuthorizedTrustTokenIssuerWorkingDirectory env workingDirectory env.homedir = false then false
    else match normalizeStackPaths env stack.toList with
      | none => false
      | some normalizedStack => (authorizedIssuerPathsForWorkingDirectory env workingDirectory).any fun issuerPath =>
          hasStackPathBoundary normalizedStack (env.nfc (forwardSlashes issuerPath.toList))

/-! ## What the search finds -/

/-- The search meets an occurrence that ends a path. -/
abbrev HoldsPath (issuerPath text : List Char) : Prop := Found (fun next => isStackPathEnd next = true) issuerPath text

theorem searchStackPath_iff {issuerPath : List Char} (hpath : issuerPath ≠ []) {fuel : Nat} {left : List Char} (hfuel : left.length ≤ fuel) :
    searchStackPath fuel left issuerPath = true ↔ HoldsPath issuerPath left := by
  have hnil : ¬ HoldsPath issuerPath [] := by
    intro hfound
    obtain ⟨before, rest, hsplit, -⟩ := found_occurrence hfound
    simp [hpath] at hsplit
  induction fuel generalizing left with
  | zero =>
    cases List.length_eq_zero_iff.mp (Nat.le_zero.mp hfuel)
    exact ⟨fun h => absurd h (by simp [searchStackPath]), fun h => absurd h hnil⟩
  | succ fuel ih =>
    rw [searchStackPath]
    by_cases hleft : left = []
    · rw [if_pos hleft, hleft]
      exact ⟨fun h => (nomatch h), fun h => absurd h hnil⟩
    rw [if_neg hleft]
    cases hfirst : afterFirst issuerPath left with
    | none =>
      refine ⟨fun h => (nomatch h), fun h => ?_⟩
      cases h with
      | here hafter _ => rw [hfirst] at hafter; cases hafter
      | later hafter _ => rw [hfirst] at hafter; cases hafter
    | some after =>
      have hshorter := afterFirst_length hpath hfirst
      have hlater : searchStackPath fuel after issuerPath = true ↔ HoldsPath issuerPath after := ih (by omega)
      dsimp only
      by_cases hend : isStackPathEnd after.head? = true
      · rw [if_pos hend]
        exact ⟨fun _ => .here hfirst hend, fun _ => rfl⟩
      · rw [if_neg hend, hlater]
        refine ⟨fun h => .later hfirst h, fun h => ?_⟩
        cases h with
        | here hafter hends =>
          rw [hfirst] at hafter
          cases hafter
          exact absurd hends hend
        | later hafter hlater =>
          rw [hfirst] at hafter
          cases hafter
          exact hlater

theorem hasStackPathBoundary_iff {issuerPath : List Char} (hpath : issuerPath ≠ []) (stack : List Char) :
    hasStackPathBoundary stack issuerPath = true ↔ HoldsPath issuerPath stack := searchStackPath_iff hpath (Nat.le_refl _)

theorem isAuthorizedTrustTokenIssuerStack_iff (stack : String) (workingDirectory : String) :
    isAuthorizedTrustTokenIssuerStack env (some stack) workingDirectory = true ↔
      stack ≠ "" ∧ isAuthorizedTrustTokenIssuerWorkingDirectory env workingDirectory env.homedir = true ∧
        ∃ text, normalizeStackPaths env stack.toList = some text ∧
          ∃ issuerPath ∈ authorizedIssuerPathsForWorkingDirectory env workingDirectory,
            hasStackPathBoundary text (env.nfc (forwardSlashes issuerPath.toList)) = true := by
  unfold isAuthorizedTrustTokenIssuerStack
  dsimp only
  by_cases hrefused : stack = "" ∨ isAuthorizedTrustTokenIssuerWorkingDirectory env workingDirectory env.homedir = false
  · rw [if_pos hrefused]
    refine ⟨fun h => (nomatch h), fun h => ?_⟩
    rcases hrefused with hempty | hdirectory
    · exact absurd hempty h.1
    · rw [hdirectory] at h
      cases h.2.1
  rw [if_neg hrefused]
  obtain ⟨hempty, hdirectory⟩ := not_or.mp hrefused
  rw [Bool.not_eq_false] at hdirectory
  cases htext : normalizeStackPaths env stack.toList with
  | none => exact ⟨fun h => (nomatch h), fun h => by obtain ⟨_, _, text, hnone, _⟩ := h; cases hnone⟩
  | some text =>
    dsimp only
    rw [List.any_eq_true]
    refine ⟨fun h => ⟨hempty, hdirectory, text, rfl, h⟩, fun h => ?_⟩
    obtain ⟨-, -, other, hother, hpaths⟩ := h
    cases hother
    exact hpaths

end GitCommitsPush.Trust
