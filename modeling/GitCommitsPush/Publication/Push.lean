/-
  GitCommitsPush.Publication.Push — the push of one branch to one URL
  (`git/push-endpoint.ts`, `git/push.ts`).

  The endpoint pins the push URL under an alias of its own, so what is read and what is
  pushed are the same place. `executePush` publishes HEAD under a lease on the ref as it
  first read it, tries again at most once after a transient failure, and ends by reading
  the ref back.
-/

import GitCommitsPush.Lib.Regex
import GitCommitsPush.Publication.Diagnostics
import GitCommitsPush.Publication.PushDestination
import GitCommitsPush.Publication.Types

namespace GitCommitsPush.Publication

open GitCommitsPush.Lib.Effect
open GitCommitsPush.Lib.JsText

/-! ## The endpoint -/

structure ResolvedPushEndpoint where
  fingerprint : String
  ephemeralRemote : String
  processConfig : List (String × String)
  repoPath : String
  deriving DecidableEq, Repr

section Endpoint

variable {σ : Type} (host : Host σ)

def readUrlRewriteConfiguration (repoPath : String) : Action σ ExecError String :=
  (host.gitExecArgs ["config", "--null", "--get-regexp", "^url\\..*\\.(insteadof|pushinsteadof)$"] repoPath).attempt
    fun error => if error.status = some 1 then pure "" else .throw error

/-- `/[=\0\r\n]/u`. -/
def cannotBePinned (pushUrl : String) : Bool := pushUrl.toList.any fun c => c == '=' || c == '\x00' || c == '\r' || c == '\n'

def resolveSinglePushEndpoint (repoPath remote : String) : Action σ ExecError ResolvedPushEndpoint := do
  let pushUrls := splitNonemptyLines
    (← host.gitExecArgs ["remote", "get-url", "--push", "--all", "--", remote] repoPath)
  match pushUrls with
  | [pushUrl] =>
    if cannotBePinned pushUrl = true then
      .throw (plainError ("Remote " ++ remote ++
        " uses a push URL that cannot be safely pinned in process-scoped Git configuration."))
    else
      let rewrites ← readUrlRewriteConfiguration host repoPath
      let endpointId ← host.randomUUID
      let ephemeralRemote := "gcp-endpoint-" ++ endpointId
      let endpointAlias := "gcp-pinned-" ++ endpointId ++ "://endpoint"
      let processConfig := [("remote." ++ ephemeralRemote ++ ".url", endpointAlias),
        ("remote." ++ ephemeralRemote ++ ".pushurl", endpointAlias), ("url." ++ pushUrl ++ ".insteadOf", endpointAlias)]
      return ⟨host.sha256 (pushUrl ++ "\x00" ++ rewrites), ephemeralRemote, processConfig, repoPath⟩
  | _ => .throw (plainError ("Remote " ++ remote ++ " must resolve to exactly one push URL; found " ++
      toString pushUrls.length ++ "."))

namespace ResolvedPushEndpoint

variable (pushEndpoint : ResolvedPushEndpoint)

def readOptionalDestinationSha (destinationRef : String) : Action σ ExecError (Option String) := do
  let result ← host.gitExecArgsWith pushEndpoint.processConfig
    ["ls-remote", "--", pushEndpoint.ephemeralRemote, destinationRef] pushEndpoint.repoPath
  -- `result.split(/\s+/u)[0]`
  return nonEmpty (String.ofList (result.toList.takeWhile fun c => !isSpace c))

def readDestinationSha (destinationRef : String) : Action σ ExecError String := do
  match ← pushEndpoint.readOptionalDestinationSha host destinationRef with
  | some sha => return sha
  | none => .throw (plainError "Push destination returned no object ID.")

def pushExact (sourceSha destinationRef : String) (destinationBaselineSha : Option String) : Action σ ExecError Unit := do
  let _ ← host.gitExecArgsWith pushEndpoint.processConfig
    ["push", "--force-with-lease=" ++ destinationRef ++ ":" ++ destinationBaselineSha.getD "", "--",
      pushEndpoint.ephemeralRemote, sourceSha ++ ":" ++ destinationRef] pushEndpoint.repoPath

end ResolvedPushEndpoint

end Endpoint

/-! ## Publication -/

def createPushError (message : String) (error : ExecError) (retryCount : Nat) : PushError :=
  ⟨message ++ ": " ++ sanitizeSensitiveDiagnostic error.message, classifyTransient error.message, retryCount⟩

theorem createPushError_transient (message : String) (error : ExecError) (retryCount : Nat) :
    (createPushError message error retryCount).transient = classifyTransient error.message := by
  unfold createPushError
  rfl

/-- A failed step that is never tried again. -/
def permanentPushError (message : String) (error : ExecError) : PushError :=
  ⟨message ++ ": " ++ sanitizeSensitiveDiagnostic error.message, false, 0⟩

section Push

variable {σ : Type} (host : Host σ)

/-- `phase` is `preflight`, `recovery check` or `postflight`. -/
def readDestinationSha (pushEndpoint : ResolvedPushEndpoint) (destinationRef phase : String) (retryCount : Nat) :
    Action σ PushError (Option String) :=
  (pushEndpoint.readOptionalDestinationSha host destinationRef).attempt fun error =>
    .throw (createPushError ("Push " ++ phase ++ " failed") error retryCount)

def assertUnchangedOrPublished (observedSha destinationBaselineSha : Option String) (sourceSha : String)
    (retryCount : Nat) : Action σ PushError Bool :=
  if observedSha = some sourceSha then pure true
  else if observedSha = destinationBaselineSha then pure false
  else .throw ⟨"Push destination changed while recovering an uncertain publication; refusing automatic retry.", false,
    retryCount⟩

/-- Reads the ref again after a failed push: whether it was published all the same. -/
def recover (pushEndpoint : ResolvedPushEndpoint) (destinationRef : String) (destinationBaselineSha : Option String)
    (sourceSha : String) : Action σ PushError Bool := do
  let observedSha ← readDestinationSha host pushEndpoint destinationRef "recovery check" 1
  assertUnchangedOrPublished observedSha destinationBaselineSha sourceSha 1

def publishWithFrozenEndpoint (pushEndpoint : ResolvedPushEndpoint) (destinationRef : String)
    (destinationBaselineSha : Option String) (sourceSha : String) : Action σ PushError Nat := do
  match ← (pushEndpoint.pushExact host sourceSha destinationRef destinationBaselineSha).outcome with
  | .ok _ => return 0
  | .error error =>
    let firstError := createPushError "Push publication failed" error 0
    if firstError.transient = false then .throw firstError
    else if ← recover host pushEndpoint destinationRef destinationBaselineSha sourceSha then return 1
    else match ← (pushEndpoint.pushExact host sourceSha destinationRef destinationBaselineSha).outcome with
      | .ok _ => return 1
      | .error error =>
        let finalError := createPushError "Push publication retry failed" error 1
        if ← recover host pushEndpoint destinationRef destinationBaselineSha sourceSha then return 1
        else .throw finalError

def assertFastForwardPublication (repository : String) (destinationBaselineSha : Option String) (sourceSha : String) :
    Action σ PushError Unit :=
  match destinationBaselineSha with
  | none => pure ()
  | some baseline =>
    if baseline = sourceSha then pure ()
    else (do let _ ← host.gitExecArgs ["merge-base", "--is-ancestor", baseline, sourceSha] repository).attempt fun _ =>
      .throw ⟨"Remote destination is not an ancestor of the exact source commit; refusing automatic push.", false, 0⟩

def establishUpstreamTracking (repository sourceBranch remote destinationRef sourceSha : String) :
    Action σ PushError Unit :=
  (do
    let _ ← host.gitExecArgs ["config", "branch." ++ sourceBranch ++ ".remote", remote] repository
    let _ ← host.gitExecArgs ["config", "branch." ++ sourceBranch ++ ".merge", destinationRef] repository
    let upstreamRef ← host.gitExecArgs ["for-each-ref", "--format=%(upstream)", "--", "refs/heads/" ++ sourceBranch] repository
    if startsWith upstreamRef "refs/remotes/" = false then
      .throw (plainError "Git did not resolve a remote-tracking upstream ref.")
    else
      let _ ← host.gitExecArgs ["update-ref", upstreamRef, sourceSha] repository).attempt fun error =>
    .throw (permanentPushError "Push succeeded but upstream tracking could not be established" error)

/-- The read after the push, once more when it failed on the way and nothing was retried. -/
def readPostflight (pushEndpoint : ResolvedPushEndpoint) (destinationRef : String) (retryCount : Nat) :
    Action σ PushError (Option String × Nat) := do
  match ← (readDestinationSha host pushEndpoint destinationRef "postflight" retryCount).outcome with
  | .ok destinationSha => return (destinationSha, retryCount)
  | .error error =>
    if error.transient = false ∨ retryCount > 0 then .throw error
    else return (← readDestinationSha host pushEndpoint destinationRef "postflight" 1, 1)

/-- Publishes the commit HEAD names to the destination. -/
def publishHead (repository : String) (destination : CurrentPushDestination) (pushEndpoint : ResolvedPushEndpoint) :
    Action σ PushError Nat := do
  let sourceSha ← (host.gitExecArgs ["rev-parse", "HEAD"] repository).attempt fun error =>
    .throw (permanentPushError "Cannot resolve exact source commit" error)
  let destinationBaselineSha ← readDestinationSha host pushEndpoint destination.destinationRef "preflight" 0
  assertFastForwardPublication host repository destinationBaselineSha sourceSha
  let retryCount ←
    if destinationBaselineSha ≠ some sourceSha then
      publishWithFrozenEndpoint host pushEndpoint destination.destinationRef destinationBaselineSha sourceSha
    else pure 0
  let (destinationSha, retryCount) ← readPostflight host pushEndpoint destination.destinationRef retryCount
  if destinationSha ≠ some sourceSha then
    .throw ⟨"Push completed without updating the destination to the exact source commit.", false, retryCount⟩
  else
    if destination.establishUpstream = true then
      establishUpstreamTracking host repository destination.sourceBranch destination.remote destination.destinationRef sourceSha
    return retryCount

def executePush (repository : String) (autoPush : Bool) : Action σ PushError Nat :=
  if autoPush = false then pure 0
  else do
    let destination ← (resolveCurrentPushDestination host repository).attempt fun error =>
      .throw (permanentPushError "Cannot resolve push destination" error)
    match destination with
    | none => return 0
    | some destination =>
      let pushEndpoint ← (resolveSinglePushEndpoint host repository destination.remote).attempt fun error =>
        .throw (permanentPushError "Cannot resolve push endpoint" error)
      publishHead host repository destination pushEndpoint

end Push

end GitCommitsPush.Publication
