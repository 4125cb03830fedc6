/-
  GitCommitsPush.Publication.Validation — what a repository passes before its changes are
  planned (`core/validators/pre-commit-validators.ts`): its tests, the staging of
  everything, and the secret scan of the staged diff.
-/

import GitCommitsPush.Publication.Host
import GitCommitsPush.Publication.Types
import GitCommitsPush.Scanner.SecretScanner

namespace GitCommitsPush.Publication

open GitCommitsPush.Lib.Effect
open GitCommitsPush.Lib.JsText
open GitCommitsPush.Lib.Trace (lifted note)
open GitCommitsPush.Scanner

/-- `details` of the default scanner. -/
def findingDetails (findings : List Finding) : String :=
  joinStrings ", " (findings.map fun f => f.name ++ " at line " ++ toString f.lineNumber)

variable {σ : Type} (host : Host σ)

/-- Passes a diff without findings, warnings or not. -/
def validateDiffForSecrets (repository diff : String) : Action (Traced σ) ExecError Unit :=
  let result := scanDiff diff.toList
  if result.clean = false then
    .throw (plainError ("Security Exception: Secret detected in diff. " ++ findingDetails result.findings))
  else note (.scanned repository diff)

structure ValidatedDiff where
  diff : String
  diffHash : String
  deriving DecidableEq, Repr

/-- Stages everything and scans what is staged. -/
def stageAndScan (repository : String) : Action (Traced σ) ExecError ValidatedDiff := do
  let _ ← lifted (host.execSync repository "git submodule foreach --quiet --recursive 'git add -A'")
  let _ ← lifted (host.execSync repository "git add -A")
  let diff ← lifted (host.execSync repository "git diff --cached")
  if trimString diff = "" then .throw (plainError "No changes found after staging.")
  else
    validateDiffForSecrets repository diff
    return ⟨diff, host.sha256 diff⟩

def processRepoValidationAndDiff (repository : String) (settings : Settings) : Action (Traced σ) ExecError ValidatedDiff := do
  if settings.skipTests = false then lifted (host.runTestCascade repository)
  stageAndScan host repository

end GitCommitsPush.Publication
