/-
  GitCommitsPush.Publication.RemainingDiff — `reconstructRemainingDiff` (`git/diff.ts`):
  the diff of the files still to commit, for a retry.
-/

import GitCommitsPush.Publication.Host

namespace GitCommitsPush.Publication

open GitCommitsPush.Lib.Effect
open GitCommitsPush.Lib.JsText

/-- `f.replace(/"/g, '\\"')`. -/
def escapeDoubleQuotes (f : String) : String :=
  String.ofList (f.toList.flatMap fun c => if c = '"' then ['\\', '"'] else [c])

/-- The command that diffs one file against the index. -/
def diffCommand (f : String) : String := "git diff -- \"" ++ escapeDoubleQuotes f ++ "\""

/-- The command that stages files. -/
def addCommand (files : List String) : String := "git add -- " ++ joinStrings " " (files.map jsonString)

variable {σ ε : Type} (host : Host σ) (repoPath : String)

/-- The loop over the pending files: those safe to stage again, and the worktree diffs of
    the others. A file Git fails on counts as safe. -/
def inspectPending : List String → Action σ ε (List String × List String)
  | [] => pure ([], [])
  | f :: files => do
    let worktreeVsIndex ← (host.execSync repoPath (diffCommand f)).outcome
    let (safeToRestage, worktreeOnlyParts) ← inspectPending files
    return match worktreeVsIndex with
      | .ok diff => if diff ≠ "" then (safeToRestage, diff :: worktreeOnlyParts)
          else (f :: safeToRestage, worktreeOnlyParts)
      | .error _ => (f :: safeToRestage, worktreeOnlyParts)

/-- Stages the safe files, reads the staged diff, and resets the index. -/
def restageAndCapture (safeToRestage worktreeOnlyParts : List String) : Action σ ExecError String := do
  let _ ← host.execSync repoPath (addCommand safeToRestage)
  let cachedDiff ← host.execSync repoPath "git diff --cached"
  let _ ← (host.execSync repoPath "git reset HEAD").outcome
  return cachedDiff ++ joinStrings "\n" worktreeOnlyParts

def reconstructRemainingDiff (pendingFiles : Option (List String)) : Action σ ε String :=
  match pendingFiles with
  | some (f :: files) => do
    let (safeToRestage, worktreeOnlyParts) ← inspectPending host repoPath (f :: files)
    if safeToRestage ≠ [] then
      (restageAndCapture host repoPath safeToRestage worktreeOnlyParts).attempt fun _ =>
        pure (joinStrings "\n" worktreeOnlyParts)
    else return joinStrings "\n" worktreeOnlyParts
  | _ => (host.execSync repoPath "git diff --cached").attempt fun _ => pure ""

end GitCommitsPush.Publication
