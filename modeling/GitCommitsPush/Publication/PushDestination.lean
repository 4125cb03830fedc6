/-
  GitCommitsPush.Publication.PushDestination — where a branch is pushed
  (`git/push-destination.ts`): Git's push-remote precedence for a tracked branch, the
  preferred or the first remote for another.
-/

import GitCommitsPush.Publication.Host

namespace GitCommitsPush.Publication

open GitCommitsPush.Lib.Effect
open GitCommitsPush.Lib.JsText

structure TrackedPushDestination where
  upstreamRef : String
  remote : String
  destinationRef : String
  deriving DecidableEq, Repr

structure CurrentPushDestination where
  sourceBranch : String
  remote : String
  destinationRef : String
  establishUpstream : Bool
  deriving DecidableEq, Repr

inductive SupportedPushDefault where
  | current | simple | upstream
  deriving DecidableEq, Repr

/-- `split("\n").map(trim).filter(Boolean)`. -/
def splitNonemptyLines (value : String) : List String := ((splitString '\n' value).map trimString).filter (· ≠ "")

/-- An output, absent when empty. -/
def nonEmpty (value : String) : Option String := if value = "" then none else some value

variable {σ : Type} (host : Host σ)

def readOptionalGit {ε : Type} (args : List String) (repository : String) : Action σ ε (Option String) :=
  (do return nonEmpty (← host.gitExecArgs args repository)).attempt fun _ => pure none

def readConfiguredRemotes (repository : String) : Action σ ExecError (List String) := do
  return splitNonemptyLines ((← readOptionalGit host ["remote"] repository).getD "")

def readConfiguredPushRemote (repository sourceBranch : String) : Action σ ExecError (Option String) := do
  match ← readOptionalGit host ["config", "--get", "branch." ++ sourceBranch ++ ".pushRemote"] repository with
  | some remote => return some remote
  | none => readOptionalGit host ["config", "--get", "remote.pushDefault"] repository

def readBranchRemote (repository sourceBranch : String) : Action σ ExecError (Option String) :=
  readOptionalGit host ["config", "--get", "branch." ++ sourceBranch ++ ".remote"] repository

def assertConfiguredRemote (remote : Option String) (configuredRemotes : List String) (sourceBranch : String) :
    Action σ ExecError String :=
  match remote with
  | some remote =>
    if remote = "." ∨ configuredRemotes.contains remote = false then
      .throw (plainError ("Branch " ++ sourceBranch ++ " has no supported remote push destination."))
    else return remote
  | none => .throw (plainError ("Branch " ++ sourceBranch ++ " has no supported remote push destination."))

def readPushDefault (repository : String) : Action σ ExecError SupportedPushDefault := do
  let configured := (← readOptionalGit host ["config", "--get", "push.default"] repository).getD "simple"
  if configured = "current" then return .current
  else if configured = "simple" then return .simple
  else if configured = "upstream" then return .upstream
  else .throw (plainError ("push.default=" ++ configured ++ " is incompatible with exact single-branch publication."))

def resolveTrackedDestinationRef (repository sourceBranch upstreamRemote pushRemote upstreamDestinationRef : String) :
    Action σ ExecError String := do
  let pushDefault ← readPushDefault host repository
  let currentBranchDestinationRef := "refs/heads/" ++ sourceBranch
  match pushDefault with
  | .current => return currentBranchDestinationRef
  | .upstream =>
    if pushRemote ≠ upstreamRemote then
      .throw (plainError "push.default=upstream cannot publish to a remote different from the upstream remote.")
    else return upstreamDestinationRef
  | .simple =>
    if pushRemote ≠ upstreamRemote then return currentBranchDestinationRef
    else if upstreamDestinationRef ≠ currentBranchDestinationRef then
      .throw (plainError ("push.default=simple requires branch " ++ sourceBranch ++
        " to have an upstream branch with the same name."))
    else return upstreamDestinationRef

def resolveTrackedPushDestination (repository sourceBranch : String) :
    Action σ ExecError (Option TrackedPushDestination) := do
  match ← readOptionalGit host ["rev-parse", "--abbrev-ref", "--symbolic-full-name", "@\x7bupstream\x7d"] repository with
  | none => return none
  | some upstreamRef =>
    let merge ← readOptionalGit host ["config", "--get", "branch." ++ sourceBranch ++ ".merge"] repository
    match merge.filter (startsWith · "refs/heads/") with
    | none => .throw (plainError ("Tracked branch " ++ sourceBranch ++ " has no supported destination ref."))
    | some upstreamDestinationRef =>
      let configuredRemotes ← readConfiguredRemotes host repository
      let branchRemote ← readBranchRemote host repository sourceBranch
      let upstreamRemote ← assertConfiguredRemote branchRemote configuredRemotes sourceBranch
      let pushRemote ← readConfiguredPushRemote host repository sourceBranch
      let remote ← assertConfiguredRemote (some (pushRemote.getD upstreamRemote)) configuredRemotes sourceBranch
      let destinationRef ← resolveTrackedDestinationRef host repository sourceBranch upstreamRemote remote
        upstreamDestinationRef
      return some ⟨upstreamRef, remote, destinationRef⟩

def resolveCurrentPushDestination (repository : String) : Action σ ExecError (Option CurrentPushDestination) := do
  let configuredRemotes ← readConfiguredRemotes host repository
  match configuredRemotes with
  | [] => return none
  | firstRemote :: _ =>
    match ← readOptionalGit host ["symbolic-ref", "--quiet", "--short", "HEAD"] repository with
    | none => .throw (plainError "Detached HEAD has no automatic push destination.")
    | some sourceBranch =>
      match ← resolveTrackedPushDestination host repository sourceBranch with
      | some tracked => return some ⟨sourceBranch, tracked.remote, tracked.destinationRef, false⟩
      | none =>
        let preferredRemote ← do
          match ← readConfiguredPushRemote host repository sourceBranch with
          | some remote => pure (some remote)
          | none => readBranchRemote host repository sourceBranch
        let remote ← match preferredRemote with
          | some remote => assertConfiguredRemote (some remote) configuredRemotes sourceBranch
          | none => pure firstRemote
        return some ⟨sourceBranch, remote, "refs/heads/" ++ sourceBranch, true⟩

end GitCommitsPush.Publication
