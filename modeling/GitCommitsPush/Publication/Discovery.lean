/-
  GitCommitsPush.Publication.Discovery — the repositories of a run (`core/discovery.ts`,
  the checks of `utils/git-utils.ts`) and the snapshot of a push-only one
  (`captureTrackedPushSnapshot`, `git/push-only.ts`).

  The paths found under the search paths and the real path of each are given. What
  discovery hands on is well formed (`runDiscovery_formed`): a snapshot goes with a
  push-only repository, with no other, and is of the form the state schema asks for when
  Git prints ids as it does (`PrintsIds`).
-/

import GitCommitsPush.Publication.PushOnly
import GitCommitsPush.Publication.StateSchema

namespace GitCommitsPush.Publication

open GitCommitsPush.Lib.Effect
open GitCommitsPush.Lib.JsText

variable {σ : Type} (host : Host σ)

/-! ## `captureTrackedPushSnapshot` -/

def isAncestor {ε : Type} (repoPath possibleAncestor possibleDescendant : String) : Action σ ε Bool :=
  (do
    let _ ← host.gitExecArgs ["merge-base", "--is-ancestor", possibleAncestor, possibleDescendant] repoPath
    return true).attempt fun _ => pure false

/-- The snapshot of a branch whose HEAD the destination lacks; `none` when it lacks nothing. -/
def captureOutgoing (repoPath sourceBranch : String) (destination : TrackedPushDestination)
    (pushEndpoint : ResolvedPushEndpoint) : Action σ ExecError (Option TrackedPushSnapshot) := do
  let destinationBaselineSha ← (pushEndpoint.readDestinationSha host destination.destinationRef).attempt fun error =>
    .throw (plainError ("Cannot inspect tracked push destination: " ++ sanitizeSensitiveDiagnostic error.message))
  let validatedHeadSha ← host.gitExecArgs ["rev-parse", "HEAD"] repoPath
  let published ← isAncestor host repoPath validatedHeadSha destinationBaselineSha
  if published = true then return none
  else
    let forward ← isAncestor host repoPath destinationBaselineSha validatedHeadSha
    if forward = false then
      .throw (plainError ("Tracked branch has diverged from " ++ destination.destinationRef ++ "; refusing automatic push."))
    else
      let listed ← host.gitExecArgs ["rev-list", "--reverse", destinationBaselineSha ++ ".." ++ validatedHeadSha] repoPath
      match splitNonemptyLines listed with
      | [] => return none
      | sha :: outgoingShas => return some {
          sourceBranch
          validatedHeadSha
          upstreamRef := destination.upstreamRef
          remote := destination.remote
          destinationRef := destination.destinationRef
          destinationBaselineSha
          outgoingShas := sha :: outgoingShas
          pushUrlFingerprint := pushEndpoint.fingerprint }

def captureTrackedPushSnapshot (repoPath : String) : Action σ ExecError (Option TrackedPushSnapshot) := do
  match ← readOptionalGit host ["symbolic-ref", "--quiet", "--short", "HEAD"] repoPath with
  | none => return none
  | some sourceBranch =>
    match ← resolveTrackedPushDestination host repoPath sourceBranch with
    | none => return none
    | some destination =>
      let pushEndpoint ← resolveSinglePushEndpoint host repoPath destination.remote
      captureOutgoing host repoPath sourceBranch destination pushEndpoint

/-! ## `runDiscovery` -/

def isDetachedHead {ε : Type} (repoPath : String) : Action σ ε Bool :=
  (do return (← host.gitExec "symbolic-ref --quiet --short HEAD" repoPath) == "").attempt fun _ => pure true

def hasDirtySubmodules {ε : Type} (repoPath : String) : Action σ ε Bool :=
  (do
    let output ← host.gitExec "submodule foreach --quiet --recursive 'git status --porcelain'" repoPath
    return trimString output != "").attempt fun _ => pure false

def hasLocalChanges {ε : Type} (repoPath : String) : Action σ ε Bool := do
  match ← (host.gitExec "status --porcelain" repoPath).outcome with
  | .ok status => if status ≠ "" then return true else hasDirtySubmodules host repoPath
  | .error _ => hasDirtySubmodules host repoPath

variable (realPath : String → String)

def computeRepoId (repoPath : String) : String := slice16 16 (host.sha256 (realPath repoPath))

/-- What a path is discovered as, if anything. -/
def discoverRepository (settings : Settings) (repoPath : String) : Action σ ExecError (Option RepositoryInfo) := do
  let detached ← isDetachedHead host repoPath
  if detached = true then return none
  else
    let isDirty ← hasLocalChanges host repoPath
    if isDirty = true then return some ⟨computeRepoId host realPath repoPath, repoPath, .commitAndPush, none⟩
    else if settings.autoPush = false then return none
    else
      match ← captureTrackedPushSnapshot host repoPath with
      | none => return none
      | some pushSnapshot => return some ⟨computeRepoId host realPath repoPath, repoPath, .pushOnly, some pushSnapshot⟩

/-- Each path once, in turn. -/
def discoverRepositories (settings : Settings) (seen : List String) : List String → Action σ ExecError (List RepositoryInfo)
  | [] => pure []
  | repoPath :: repoPaths =>
    if seen.contains repoPath = true then discoverRepositories settings seen repoPaths
    else do
      let found ← discoverRepository host realPath settings repoPath
      return found.toList ++ (← discoverRepositories settings (repoPath :: seen) repoPaths)

/-- `path.split(path.sep).length`. -/
def pathDepth (path : String) : Nat := (splitString '/' path).length

/-- The deeper path first: submodules before their parents. -/
def runDiscovery (settings : Settings) (repoPaths : List String) : Action σ ExecError (List RepositoryInfo) := do
  let results ← discoverRepositories host realPath settings [] repoPaths
  return results.mergeSort fun a b => pathDepth b.path ≤ pathDepth a.path

/-! ## What is discovered -/

/-- Git prints ids as it does: alone on a line, one a line, or at the head of the line of a
    ref; SHA-256 is printed in 64 hexadecimal digits. -/
structure PrintsIds : Prop where
  head : ∀ cwd, Action.Returns (host.execFileGit cwd ["rev-parse", "HEAD"] []) fun out => ∃ id : ObjectId, out = id.text ++ "\n"
  listed : ∀ cwd range, Action.Returns (host.execFileGit cwd ["rev-list", "--reverse", range] []) fun out =>
    ∀ line ∈ splitNonemptyLines (trimString out), gitObjectIdSchema line = true
  remote : ∀ cwd processConfig remote ref, Action.Returns (host.execFileGit cwd ["ls-remote", "--", remote, ref] processConfig)
    fun out => out = "" ∨ ∃ (id : ObjectId) (rest : List Char), out = String.ofList (id.text.toList ++ '\t' :: rest)
  digest : ∀ text, fingerprintSchema (host.sha256 text) = true

/-- A snapshot of the form the schema asks for goes with a push-only repository only. -/
def RepositoryInfo.Formed (repo : RepositoryInfo) : Prop :=
  match repo.operation with
  | .pushOnly => ∃ snapshot, repo.pushSnapshot = some snapshot ∧ pushSnapshotSchema snapshot = true
  | .commitAndPush => repo.pushSnapshot = none

section Formed

variable {host} (hids : PrintsIds host)

theorem gitExecArgsWith_returns {processConfig : List (String × String)} {args : List String} {cwd : String} {P : String → Prop}
    (h : Action.Returns (host.execFileGit cwd args processConfig) fun out => P (trimString out)) :
    Action.Returns (host.gitExecArgsWith processConfig args cwd) P :=
  Action.Returns.bind h fun _ hout => Action.Returns.pure hout

include hids

theorem head_id (repoPath : String) :
    Action.Returns (host.gitExecArgs ["rev-parse", "HEAD"] repoPath) fun sha => gitObjectIdSchema sha = true := by
  refine gitExecArgsWith_returns fun s out hout => ?_
  obtain ⟨id, rfl⟩ := hids.head repoPath s out hout
  rw [id.printed]
  exact id.valid

theorem readDestinationSha_id (pushEndpoint : ResolvedPushEndpoint) (destinationRef : String) :
    Action.Returns (pushEndpoint.readDestinationSha host destinationRef) fun sha => gitObjectIdSchema sha = true := by
  unfold ResolvedPushEndpoint.readDestinationSha ResolvedPushEndpoint.readOptionalDestinationSha
  have hfirst : Action.Returns (host.gitExecArgsWith pushEndpoint.processConfig
      ["ls-remote", "--", pushEndpoint.ephemeralRemote, destinationRef] pushEndpoint.repoPath) fun result =>
      ∀ sha, nonEmpty (String.ofList (result.toList.takeWhile fun c => !isSpace c)) = some sha → gitObjectIdSchema sha = true := by
    refine gitExecArgsWith_returns fun s out hout => ?_
    intro sha hsha
    rcases hids.remote _ _ _ _ s out hout with rfl | ⟨id, rest, rfl⟩
    · cases hsha
    · rw [id.listed _ fun c hc => by cases hc; decide] at hsha
      unfold nonEmpty at hsha
      rw [if_neg id.ne_empty] at hsha
      cases hsha
      exact id.valid
  refine Action.Returns.bind (Q := fun sha? => ∀ sha, sha? = some sha → gitObjectIdSchema sha = true)
    (Action.Returns.bind hfirst fun result h => Action.Returns.pure h) fun sha? h => ?_
  cases sha? with
  | none => exact Action.Returns.throw _
  | some sha => exact Action.Returns.pure (h sha rfl)

theorem captureOutgoing_formed (repoPath sourceBranch : String) (destination : TrackedPushDestination)
    (pushEndpoint : ResolvedPushEndpoint) (hfingerprint : fingerprintSchema pushEndpoint.fingerprint = true) :
    Action.Returns (captureOutgoing host repoPath sourceBranch destination pushEndpoint) fun found =>
      ∀ snapshot, found = some snapshot → pushSnapshotSchema snapshot = true := by
  have hnone : Action.Returns (pure none : Action σ ExecError (Option TrackedPushSnapshot)) fun found =>
      ∀ snapshot, found = some snapshot → pushSnapshotSchema snapshot = true :=
    Action.Returns.pure fun snapshot h => by cases h
  unfold captureOutgoing
  refine Action.Returns.bind (Action.Returns.attempt (readDestinationSha_id hids pushEndpoint destination.destinationRef)
    fun _ => Action.Returns.throw _) fun destinationBaselineSha hbaseline => ?_
  refine Action.Returns.bind (head_id hids repoPath) fun validatedHeadSha hhead => ?_
  refine Action.Returns.bind (Action.Returns.any _) fun published _ => ?_
  refine Action.Returns.ite (fun _ => hnone) fun _ => ?_
  refine Action.Returns.bind (Action.Returns.any _) fun forward _ => ?_
  refine Action.Returns.ite (fun _ => Action.Returns.throw _) fun _ => ?_
  refine Action.Returns.bind (gitExecArgsWith_returns (P := fun listed =>
    ∀ line ∈ splitNonemptyLines listed, gitObjectIdSchema line = true) (hids.listed _ _)) fun listed hlisted => ?_
  cases hlines : splitNonemptyLines listed with
  | nil => exact hnone
  | cons sha outgoingShas =>
    refine Action.Returns.pure fun snapshot h => ?_
    cases h
    rw [hlines] at hlisted
    have hall : (sha :: outgoingShas).all gitObjectIdSchema = true := List.all_eq_true.mpr hlisted
    simp only [pushSnapshotSchema, hhead, hbaseline, hall, hfingerprint, List.isEmpty_cons, Bool.not_false, Bool.and_self]

theorem resolveSinglePushEndpoint_digest (repoPath remote : String) :
    Action.Returns (resolveSinglePushEndpoint host repoPath remote) fun pushEndpoint =>
      fingerprintSchema pushEndpoint.fingerprint = true := by
  unfold resolveSinglePushEndpoint
  refine Action.Returns.bind (Action.Returns.any _) fun listed _ => ?_
  dsimp only
  split
  · refine Action.Returns.ite (fun _ => Action.Returns.throw _) fun _ => ?_
    refine Action.Returns.bind (Action.Returns.any _) fun rewrites _ => ?_
    refine Action.Returns.bind (Action.Returns.any _) fun endpointId _ => ?_
    exact Action.Returns.pure (hids.digest _)
  · exact Action.Returns.throw _

theorem captureTrackedPushSnapshot_formed (repoPath : String) :
    Action.Returns (captureTrackedPushSnapshot host repoPath) fun found =>
      ∀ snapshot, found = some snapshot → pushSnapshotSchema snapshot = true := by
  have hnone : Action.Returns (pure none : Action σ ExecError (Option TrackedPushSnapshot)) fun found =>
      ∀ snapshot, found = some snapshot → pushSnapshotSchema snapshot = true :=
    Action.Returns.pure fun snapshot h => by cases h
  unfold captureTrackedPushSnapshot
  refine Action.Returns.bind (Action.Returns.any _) fun branch _ => ?_
  cases branch with
  | none => exact hnone
  | some sourceBranch =>
    refine Action.Returns.bind (Action.Returns.any _) fun destination _ => ?_
    cases destination with
    | none => exact hnone
    | some destination =>
      exact Action.Returns.bind (resolveSinglePushEndpoint_digest hids repoPath destination.remote)
        fun pushEndpoint h => captureOutgoing_formed hids repoPath sourceBranch destination pushEndpoint h

theorem discoverRepository_formed (settings : Settings) (repoPath : String) :
    Action.Returns (discoverRepository host realPath settings repoPath) fun found => ∀ repo ∈ found.toList, repo.Formed := by
  have hnone : Action.Returns (pure none : Action σ ExecError (Option RepositoryInfo)) fun found =>
      ∀ repo ∈ found.toList, repo.Formed := Action.Returns.pure fun repo h => by cases h
  unfold discoverRepository
  refine Action.Returns.bind (Action.Returns.any _) fun detached _ => ?_
  refine Action.Returns.ite (fun _ => hnone) fun _ => ?_
  refine Action.Returns.bind (Action.Returns.any _) fun isDirty _ => ?_
  refine Action.Returns.ite (fun _ => ?_) fun _ => ?_
  · refine Action.Returns.pure fun repo h => ?_
    rw [List.mem_singleton.mp h]
    rfl
  refine Action.Returns.ite (fun _ => hnone) fun _ => ?_
  refine Action.Returns.bind (captureTrackedPushSnapshot_formed hids repoPath) fun found h => ?_
  cases found with
  | none => exact hnone
  | some snapshot =>
    refine Action.Returns.pure fun repo hrepo => ?_
    rw [List.mem_singleton.mp hrepo]
    exact ⟨snapshot, rfl, h snapshot rfl⟩

theorem discoverRepositories_formed (settings : Settings) (repoPaths seen : List String) :
    Action.Returns (discoverRepositories host realPath settings seen repoPaths) fun found => ∀ repo ∈ found, repo.Formed := by
  induction repoPaths generalizing seen with
  | nil => exact Action.Returns.pure fun repo h => by cases h
  | cons repoPath repoPaths ih =>
    unfold discoverRepositories
    refine Action.Returns.ite (fun _ => ih seen) fun _ => ?_
    refine Action.Returns.bind (discoverRepository_formed realPath hids settings repoPath) fun found hfound => ?_
    refine Action.Returns.bind (ih (repoPath :: seen)) fun others hothers => ?_
    refine Action.Returns.pure fun repo hrepo => ?_
    rcases List.mem_append.mp hrepo with h | h
    · exact hfound repo h
    · exact hothers repo h

/-- Whatever is discovered is well formed. -/
theorem runDiscovery_formed (settings : Settings) (repoPaths : List String) :
    Action.Returns (runDiscovery host realPath settings repoPaths) fun found => ∀ repo ∈ found, repo.Formed := by
  unfold runDiscovery
  refine Action.Returns.bind (discoverRepositories_formed realPath hids settings repoPaths []) fun found h => ?_
  exact Action.Returns.pure fun repo hrepo => h repo (List.mem_mergeSort.mp hrepo)

end Formed

end GitCommitsPush.Publication
