/-
  GitCommitsPush.Installation.StandaloneInstaller — the installation of a release
  (`installation/standalone-installer.ts`, `release-identity.ts`, `buildStandaloneDeployment`
  of `deployment-builder.ts`).

  The file system is the entries of the three directories the installer writes in. Each
  operation may fail, and then changes nothing; `rm` of a tree, the deployment and the removal
  of its metadata go through any contents of the tree they write. A rename and the creation of
  a link are one change.

  Not here: the directories themselves and the lock's own files, whose operations only return
  or throw.
-/

import GitCommitsPush.Installation.ReleaseTree
import GitCommitsPush.Lib.Interruption

namespace GitCommitsPush.Installation

open GitCommitsPush.Lib.Effect
open GitCommitsPush.Lib.Interruption
open GitCommitsPush.Lib.JsText

/-! ## `release-identity.ts` -/

/-- `0|[1-9]\d*`. -/
def isNumeral (chars : List Char) : Bool := match chars with
  | [] => false
  | first :: rest => if first = '0' then rest = [] else first.isDigit && rest.all Char.isDigit

def isPackageVersion (chars : List Char) : Bool := match splitOn '.' chars with
  | [major, minor, patch] => isNumeral major && isNumeral minor && isNumeral patch
  | _ => false

/-- `^[a-f0-9]{n}$`. -/
def isLowerHex (n : Nat) (chars : List Char) : Bool :=
  chars.length = n && chars.all fun c => ('a' ≤ c && c ≤ 'f') || c.isDigit

/-- Neither part of a name has a hyphen. -/
def isStandaloneReleaseName (candidate : String) : Bool := match splitOn '-' candidate.toList with
  | [version, digest] => isPackageVersion version && isLowerHex 64 digest
  | _ => false

structure InstallError where
  code : Option String
  message : String
  deriving DecidableEq, Repr

def plainError (message : String) : InstallError := ⟨none, message⟩

/-- The value of a manifest, when it is a string. -/
def requireStandalonePackageVersion (value : Option String) : Except InstallError String :=
  match value with
  | some version => if isPackageVersion version.toList then .ok version else .error (plainError "Deployed package manifest is invalid.")
  | none => .error (plainError "Deployed package manifest is invalid.")

def createStandaloneReleaseName (version digest : String) : Except InstallError String := do
  let _ ← requireStandalonePackageVersion (some version)
  if isLowerHex 64 digest.toList = false then .error (plainError "Standalone release digest must be a complete SHA-256.")
  else return version ++ "-" ++ digest

/-! ## The file system -/

inductive Place where
  | bin | application | releases
  deriving DecidableEq, Repr

abbrev FileSystem := Place → String → Option Node

def FileSystem.put (files : FileSystem) (place : Place) (name : String) (node : Option Node) : FileSystem :=
  fun other entry => if other = place ∧ entry = name then node else files other entry

inductive FileStep where
  | ensureDirectory
  | acquireLock
  | releaseLock
  | randomBytes
  | lstat (place : Place) (name : String)
  | readlink (place : Place) (name : String)
  | readdir
  | read (name : String)
  | mkdir (place : Place) (name : String)
  | rewrite (place : Place) (name : String)
  | symlink (place : Place) (name : String)
  | rename (place : Place) (name : String) (place' : Place) (name' : String)
  | remove (place : Place) (name : String)
  | realpath
  deriving DecidableEq, Repr

/-- What a step meets: the failure if it fails, the contents of the tree it writes one after
    another, the names a directory lists and the random bytes. A path is said to be missing
    only where it is. -/
structure Circumstance where
  failure : Option InstallError
  contents : List Node
  names : List String
  random : String

abbrev Installing := Process FileSystem FileStep Circumstance

abbrev Install (α : Type) := Action Installing InstallError α

/-- A step that changes nothing. -/
def observe {α : Type} (step : FileStep) (answer : Circumstance → FileSystem → Except InstallError α) : Install α :=
  perform step fun circumstance files => match circumstance.failure with
    | some error => (.error error, [])
    | none => (answer circumstance files, [])

/-- A step of one change. -/
def change (step : FileStep) (effect : FileSystem → Except InstallError FileSystem) : Install Unit :=
  perform step fun circumstance files => match circumstance.failure with
    | some error => (.error error, [])
    | none => match effect files with
      | .error error => (.error error, [])
      | .ok files' => (.ok (), [files'])

/-- A step that writes a tree little by little; the last contents are left. -/
def rewriteTree (place : Place) (name : String) : Install Unit :=
  perform (.rewrite place name) fun circumstance files =>
    (match circumstance.failure with
      | some error => .error error
      | none => .ok (), circumstance.contents.map fun node => files.put place name (some node))

def removal (place : Place) (name : String) (circumstance : Circumstance) (files : FileSystem) :
    Except InstallError Unit × List FileSystem :=
  let going := circumstance.contents.map fun node => files.put place name (some node)
  match files place name, circumstance.failure with
  | none, some error => (.error error, [])
  | none, none => (.ok (), [])
  | some _, some error => (.error error, going)
  | some _, none => (.ok (), going ++ [files.put place name none])

/-- `rm(path, { force: true, recursive: true })`. -/
def removeTree (place : Place) (name : String) : Install Unit := perform (.remove place name) (removal place name)

def mkdir (place : Place) (name : String) (mode : Nat) : Install Unit :=
  change (.mkdir place name) fun files => match files place name with
    | some _ => .error ⟨some "EEXIST", "EEXIST: file already exists, mkdir"⟩
    | none => .ok (files.put place name (some (.directory mode [])))

def symlink (target : String) (place : Place) (name : String) : Install Unit :=
  change (.symlink place name) fun files => match files place name with
    | some _ => .error ⟨some "EEXIST", "EEXIST: file already exists, symlink"⟩
    | none => .ok (files.put place name (some (.symlink 0o777 target)))

/-- `rename(2)`: a directory replaces an empty one only, and nothing else replaces a directory. -/
def rename (place : Place) (name : String) (place' : Place) (name' : String) : Install Unit :=
  change (.rename place name place' name') fun files =>
    let moved node := (files.put place name none).put place' name' (some node)
    match files place name, files place' name' with
    | none, _ => .error ⟨some "ENOENT", "ENOENT: no such file or directory, rename"⟩
    | some (.directory mode children), none => .ok (moved (.directory mode children))
    | some (.directory mode children), some (.directory _ []) => .ok (moved (.directory mode children))
    | some (.directory _ _), some _ => .error ⟨some "ENOTEMPTY", "ENOTEMPTY: directory not empty, rename"⟩
    | some _, some (.directory _ _) => .error ⟨some "EISDIR", "EISDIR: illegal operation on a directory, rename"⟩
    | some node, _ => .ok (moved node)

/-- `rm(path, { force: true })`. -/
def removeFile (place : Place) (name : String) : Install Unit :=
  change (.remove place name) fun files => match files place name with
    | some (.directory _ _) => .error ⟨some "ERR_FS_EISDIR", "Path is a directory"⟩
    | _ => .ok (files.put place name none)

def readlink (place : Place) (name : String) : Install String :=
  observe (.readlink place name) fun _ files => match files place name with
    | some (.symlink _ target) => .ok target
    | _ => .error ⟨some "EINVAL", "EINVAL: invalid argument, readlink"⟩

/-- As hexadecimal digits. -/
def randomBytes : Install String := observe .randomBytes fun circumstance _ => .ok circumstance.random

/-! ## `install-paths.ts` -/

structure StandaloneInstallPaths where
  applicationDirectory : Path
  binDirectory : Path

namespace StandaloneInstallPaths

variable (paths : StandaloneInstallPaths)

def currentReleaseLink : Path := paths.applicationDirectory ++ ["current"]

def publicExecutablePath : Path := paths.binDirectory ++ ["git-commits-push"]

def releaseDirectory (name : String) : Path := paths.applicationDirectory ++ ["releases", name]

/-- `path.relative(path.dirname(publicExecutablePath), path.join(currentReleaseLink, …))`. -/
def expectedTarget : String :=
  joinStrings "/" (relative paths.binDirectory (paths.currentReleaseLink ++ ["bin", "git-commits-push.mjs"]))

end StandaloneInstallPaths

/-- What the file system and the libraries do inside a release: links on the way are followed. -/
structure InstallHost where
  sha256 : List UInt8 → String
  realpath : FileSystem → Path → Except String Path
  /-- `lstat` of a path below a directory. -/
  lstatIn : Node → String → Option Node
  /-- `chmod` of a path below a directory. -/
  chmodIn : Node → String → Nat → Except InstallError Node
  /-- The name and the version of `package.json`, where they are strings. -/
  manifest : Node → Except InstallError (Option String × Option String)

section Installer

variable (host : InstallHost) (paths : StandaloneInstallPaths)

/-! ## `deployment-builder.ts` -/

/-- What a release directory has at the time. -/
def readRelease {α : Type} (name : String) (answer : FileSystem → Node → Except InstallError α) : Install α :=
  observe (.read name) fun _ files => match files .releases name with
    | some node => answer files node
    | none => .error ⟨some "ENOENT", "ENOENT: no such file or directory"⟩

def requiredReleaseFiles : List String :=
  ["bin/git-commits-push.mjs", "dist/src/entrypoints/git-commits-push.js", "dist/src/entrypoints/node-supervisor.js",
    "dist/src/entrypoints/turnlock-orchestrator.js", "dist/src/entrypoints/turnlock-to-llm-bridge.js",
    "dist/src/config/settings.json", "dist/system-prompt.md",
    "node_modules/@git-commits-push/node-runtime/dist/index.js", "node_modules/@git-commits-push/trust/dist/index.js"]

def isFile : Option Node → Bool
  | some (.file _ _) => true
  | _ => false

def requireFiles (name : String) : List String → Install Unit
  | [] => pure ()
  | relativePath :: rest => do
    readRelease name fun _ node =>
      if isFile (host.lstatIn node relativePath) then .ok ()
      else .error (plainError ("Deployed release artifact is not a file: " ++ relativePath))
    requireFiles name rest

def treeDigest (name : String) : Install String :=
  readRelease name fun files node =>
    (digestReleaseTree host.sha256 (host.realpath files) (paths.releaseDirectory name) node).mapError plainError

def validateDeployedApplication (name : String) : Install String := do
  let manifest ← readRelease name fun _ node => host.manifest node
  if manifest.1 ≠ some "git-commits-push" then .throw (plainError "Deployed package manifest is invalid.")
  else
    let version ← (fun s => (requireStandalonePackageVersion manifest.2, s) : Install String)
    change (.rewrite .releases name) fun files => match files .releases name with
      | some node => (host.chmodIn node "bin/git-commits-push.mjs" 0o755).map fun node => files.put .releases name (some node)
      | none => .error ⟨some "ENOENT", "ENOENT: no such file or directory, chmod"⟩
    requireFiles host name requiredReleaseFiles
    readRelease name fun files node =>
      (collectReleaseTreeEntries (host.realpath files) (paths.releaseDirectory name) node).mapError plainError |>.map fun _ => ()
    return version

/-- `runPnpmDeploy`, `removePnpmMetadata`, then what checks the result. -/
def buildStandaloneDeployment (name : String) : Install (String × String) := do
  rewriteTree .releases name
  rewriteTree .releases name
  let version ← validateDeployedApplication host paths name
  let digest ← treeDigest host paths name
  return (digest, version)

/-! ## `standalone-installer.ts` -/

/-- The directory is there, a physical one of the user's. -/
def ensurePhysicalDirectory : Install Unit := observe .ensureDirectory fun _ _ => .ok ()

inductive PathKind where
  | absent | directory | symlink | other
  deriving DecidableEq, Repr

def pathKind (place : Place) (name : String) : Install PathKind :=
  observe (.lstat place name) fun _ files => match files place name with
    | none => .ok .absent
    | some (.directory _ _) => .ok .directory
    | some (.symlink _ _) => .ok .symlink
    | some _ => .ok .other

/-- `/^\.staging-[a-f0-9]{32}$/`. -/
def isStagingName (name : String) : Bool :=
  startsWith name ".staging-" && isLowerHex 32 (name.toList.drop ".staging-".toList.length)

def removeIfStaging (name : String) : Install Unit :=
  if isStagingName name then do
    if (← pathKind .releases name) ≠ .directory then
      .throw (plainError ("Stale staging entry is not a physical directory: " ++ pathText (paths.releaseDirectory name)))
    else removeTree .releases name
  else pure ()

def removeEach : List String → Install Unit
  | [] => pure ()
  | name :: rest => do
    removeIfStaging paths name
    removeEach rest

def removeStaleStagingDirectories : Install Unit := do
  let names ← observe .readdir fun circumstance files => .ok (circumstance.names.filter fun name => (files .releases name).isSome)
  removeEach paths names

def isReleaseTarget (target : String) : Bool :=
  startsWith target "releases/" && isStandaloneReleaseName (String.ofList (target.toList.drop "releases/".toList.length))

/-- `current` may be replaced. -/
def checkCurrentReleaseLink : Install Unit := do
  let currentKind ← pathKind .application "current"
  if currentKind ≠ .absent ∧ currentKind ≠ .symlink then
    .throw (plainError ("Current release entry must be a symlink or absent: " ++ pathText paths.currentReleaseLink))
  else if currentKind = .symlink then
    let currentTarget ← readlink .application "current"
    if isReleaseTarget currentTarget = false then
      .throw (plainError ("Current release symlink has an unsafe target: " ++ currentTarget))
    else pure ()
  else pure ()

def replaceCurrentReleaseLink (releaseName : String) : Install Unit := do
  checkCurrentReleaseLink paths
  let random ← randomBytes
  let temporaryLink := "current.next-" ++ random
  ensuring (do
    symlink ("releases/" ++ releaseName) .application temporaryLink
    rename .application temporaryLink .application "current") (removeFile .application temporaryLink)

def ensureStablePublicExecutable : Install Unit := do
  let publicKind ← pathKind .bin "git-commits-push"
  if publicKind = .symlink then
    let observedTarget ← readlink .bin "git-commits-push"
    if observedTarget ≠ paths.expectedTarget then
      .throw (plainError ("Public executable points to an unexpected target: " ++ observedTarget))
  else if publicKind ≠ .absent then
    .throw (plainError ("Public executable path must be absent or the managed symlink: " ++ pathText paths.publicExecutablePath))
  else
    (symlink paths.expectedTarget .bin "git-commits-push").attempt fun error =>
      if error.code = some "EEXIST" then
        .throw (plainError ("Public executable path changed during installation: " ++ pathText paths.publicExecutablePath))
      else .throw error

def activateStandaloneRelease (releaseName : String) : Install Unit := do
  if isStandaloneReleaseName releaseName = false then
    .throw (plainError ("Invalid standalone release name: " ++ releaseName))
  else
    let releaseExecutable := paths.releaseDirectory releaseName ++ ["bin", "git-commits-push.mjs"]
    readRelease releaseName fun _ node => match host.lstatIn node "bin/git-commits-push.mjs" with
      | none => .error ⟨some "ENOENT", "ENOENT: no such file or directory, lstat"⟩
      | found => if isFile found then .ok ()
        else .error (plainError ("Release executable is not a file: " ++ pathText releaseExecutable))
    ensurePhysicalDirectory
    ensureStablePublicExecutable paths
    replaceCurrentReleaseLink paths releaseName
    let activeExecutable ← observe .realpath fun _ files => (host.realpath files paths.publicExecutablePath).mapError plainError
    let requested ← observe .realpath fun _ files => (host.realpath files releaseExecutable).mapError plainError
    if activeExecutable ≠ requested then
      .throw (plainError "Activated executable does not resolve to the requested release.")

structure InstallStandaloneResult where
  releaseName : String
  reusedRelease : Bool
  deriving DecidableEq, Repr

/-- The body of the `try`. -/
def installRelease (stagingDirectory : String) : Install InstallStandaloneResult := do
  removeStaleStagingDirectories paths
  mkdir .releases stagingDirectory 0o700
  let (digest, version) ← buildStandaloneDeployment host paths stagingDirectory
  let releaseName ← (fun s => (createStandaloneReleaseName version digest, s) : Install String)
  if (← pathKind .releases releaseName) = .absent then
    rename .releases stagingDirectory .releases releaseName
    activateStandaloneRelease host paths releaseName
    return ⟨releaseName, false⟩
  else
    observe (.read releaseName) fun _ files =>
      (verifyExistingRelease host.sha256 (host.realpath files) (paths.releaseDirectory releaseName) (files .releases releaseName)
        digest).mapError plainError
    removeTree .releases stagingDirectory
    activateStandaloneRelease host paths releaseName
    return ⟨releaseName, true⟩

/-- The `try` and its `catch`; what the removal throws is written to stderr. -/
def installOrCleanUp (stagingDirectory : String) : Install InstallStandaloneResult :=
  (installRelease host paths stagingDirectory).attempt fun error => do
    let _ ← ((removeTree .releases stagingDirectory).outcome : Install (Except InstallError Unit))
    Action.throw error

def installStandalone : Install InstallStandaloneResult := do
  ensurePhysicalDirectory
  ensurePhysicalDirectory
  ensurePhysicalDirectory
  observe .acquireLock fun _ _ => .ok ()
  let stagingDirectory := ".staging-" ++ (← randomBytes)
  let operation ← (installOrCleanUp host paths stagingDirectory).outcome
  let released ← (observe .releaseLock fun _ _ => .ok () : Install Unit).outcome
  match operation, released with
  | .error error, _ => .throw error
  | .ok _, .error error => .throw error
  | .ok result, .ok () => return result

end Installer

end GitCommitsPush.Installation
