/-
  GitCommitsPush.Publication.PushOnly — the publication of commits that exist already
  (`git/push-only.ts`, `git/push-only-checkpoint.ts`).

  A clean tracked branch is checkpointed as a snapshot. Its publication scans the patches
  of every outgoing commit, checks that nothing moved since, pushes once and reads the
  ref back. Only the message of an error is used, so every error is a plain one.
-/

import GitCommitsPush.Publication.Push
import GitCommitsPush.Publication.Validation

namespace GitCommitsPush.Publication

open GitCommitsPush.Lib.Effect
open GitCommitsPush.Lib.JsText
open GitCommitsPush.Lib.Trace (lifted note)

variable {σ : Type} (host : Host σ)

def assertOutgoingShasMatchSnapshot (repoPath : String) (snapshot : TrackedPushSnapshot) : Action σ ExecError Unit := do
  let _ ← (host.gitExecArgs ["merge-base", "--is-ancestor", snapshot.destinationBaselineSha, snapshot.validatedHeadSha]
    repoPath).attempt fun _ => .throw (plainError "Push-only baseline is not an ancestor of the validated HEAD.")
  let listed ← host.gitExecArgs
    ["rev-list", "--reverse", snapshot.destinationBaselineSha ++ ".." ++ snapshot.validatedHeadSha] repoPath
  if splitNonemptyLines listed ≠ snapshot.outgoingShas then
    .throw (plainError "Push-only outgoing commit list no longer matches the validated snapshot.")
  else pure ()

def readPatches (repoPath : String) : List String → Action σ ExecError (List String)
  | [] => pure []
  | sha :: outgoingShas => do
    let patch ← host.gitExecArgs ["show", "--format=", "--binary", "--no-ext-diff", sha] repoPath
    return patch :: (← readPatches repoPath outgoingShas)

def readCommitPatches (repoPath : String) (outgoingShas : List String) : Action σ ExecError String := do
  return joinStrings "\n" (← readPatches host repoPath outgoingShas)

def readRemoteDestinationSha (pushEndpoint : ResolvedPushEndpoint) (snapshot : TrackedPushSnapshot) :
    Action σ ExecError String :=
  (pushEndpoint.readDestinationSha host snapshot.destinationRef).attempt fun error =>
    .throw (plainError ("Cannot verify push-only destination: " ++ sanitizeSensitiveDiagnostic error.message))

inductive Revalidated where
  | pending | alreadyPushed
  deriving DecidableEq, Repr

def revalidateTrackedPushSnapshot (repoPath : String) (snapshot : TrackedPushSnapshot)
    (pushEndpoint : ResolvedPushEndpoint) : Action σ ExecError Revalidated := do
  let currentBranch ← host.gitExecArgs ["symbolic-ref", "--quiet", "--short", "HEAD"] repoPath
  let currentHead ← host.gitExecArgs ["rev-parse", "HEAD"] repoPath
  let worktreeStatus ← host.gitExecArgs ["status", "--porcelain=v1", "--untracked-files=all"] repoPath
  if currentBranch ≠ snapshot.sourceBranch ∨ currentHead ≠ snapshot.validatedHeadSha ∨ worktreeStatus ≠ "" then
    .throw (plainError "Repository branch, HEAD, or worktree changed after push-only validation.")
  else
    let currentDestination ← resolveTrackedPushDestination host repoPath snapshot.sourceBranch
    if currentDestination ≠ some ⟨snapshot.upstreamRef, snapshot.remote, snapshot.destinationRef⟩ then
      .throw (plainError "Tracked push destination changed after validation; refusing stale push.")
    else
      let remoteDestinationSha ← readRemoteDestinationSha host pushEndpoint snapshot
      if remoteDestinationSha = snapshot.validatedHeadSha then return .alreadyPushed
      else if remoteDestinationSha ≠ snapshot.destinationBaselineSha then
        .throw (plainError "Remote destination changed after push-only validation; refusing stale push.")
      else return .pending

/-- The push of a snapshot whose patches passed the scan. -/
def pushTrackedSnapshot (repoPath : String) (snapshot : TrackedPushSnapshot) : Action σ ExecError (List String) := do
  let pushEndpoint ← (resolveSinglePushEndpoint host repoPath snapshot.remote).attempt fun error =>
    .throw (plainError ("Cannot resolve push-only destination: " ++ sanitizeSensitiveDiagnostic error.message))
  if pushEndpoint.fingerprint ≠ snapshot.pushUrlFingerprint then
    .throw (plainError "Tracked remote push URL changed after push-only validation.")
  else match ← revalidateTrackedPushSnapshot host repoPath snapshot pushEndpoint with
    | .alreadyPushed => return snapshot.outgoingShas
    | .pending =>
      (pushEndpoint.pushExact host snapshot.validatedHeadSha snapshot.destinationRef
        (some snapshot.destinationBaselineSha)).attempt fun error =>
        .throw (plainError ("Push-only publication failed: " ++ sanitizeSensitiveDiagnostic error.message))
      if (← readRemoteDestinationSha host pushEndpoint snapshot) ≠ snapshot.validatedHeadSha then
        .throw (plainError "Push completed without updating the destination to the validated HEAD.")
      else return snapshot.outgoingShas

def validateAndPushTrackedSnapshot (repoPath : String) (snapshot : TrackedPushSnapshot) (settings : Settings) :
    Action (Traced σ) ExecError (List String) := do
  if settings.autoPush = false then return []
  else
    if settings.skipTests = false then lifted (host.runTestCascade repoPath)
    lifted (assertOutgoingShasMatchSnapshot host repoPath snapshot)
    let patches ← lifted (readCommitPatches host repoPath snapshot.outgoingShas)
    validateDiffForSecrets repoPath patches
    lifted (pushTrackedSnapshot host repoPath snapshot)

/-- The pushed ids, when the whole checkpointed list was pushed. -/
def publishCheckpoint (repoState : RepoState) (snapshot : TrackedPushSnapshot) (result : CommitJobResult)
    (settings : Settings) : Action (Traced σ) ExecError (List String) :=
  match result with
  | .error _ error => .throw (plainError error)
  | .success _ _ =>
    if settings.autoPush = false then
      .throw (plainError "Push-only publication was checkpointed but autoPush is now disabled.")
    else do
      let pushedShas ← validateAndPushTrackedSnapshot host repoState.repository snapshot settings
      if pushedShas ≠ snapshot.outgoingShas then
        .throw (plainError "Push-only publication did not return the complete checkpointed object set.")
      else return pushedShas

def handlePushOnlyCheckpointResult (repoState : RepoState) (result : CommitJobResult) (settings : Settings) :
    Action (Traced σ) String RepoState :=
  match repoState.pushSnapshot with
  | none => .throw "Persisted push-only state is missing its tracked snapshot."
  | some snapshot => do
    match ← (publishCheckpoint host repoState snapshot result settings).outcome with
    | .ok pushedShas => return { repoState with
        status := .SUCCESS
        operation := some .pushOnly
        pushSnapshot := some snapshot
        pushedShas := some pushedShas }
    | .error error => return { repoState with
        status := .FAILED
        operation := some .pushOnly
        pushSnapshot := some snapshot
        error := some (sanitizeSensitiveDiagnostic error.message) }

end GitCommitsPush.Publication
