/-
  GitCommitsPush.Installation.InstallLock — the installers' lock, one system call at a time.

  The exclusive transaction of a SQLite file is the lock: the system gives it to one process and
  takes it back when the process ends. The owner record beside it says who holds it. A record is
  written as a candidate and linked to its name when it is whole; a record that is left behind is
  moved aside once its process is gone. Between any two calls of the system other processes may
  move, and a process may end. The connection of a transaction nobody can reach any more may be
  collected.

  A write that fails may leave any text; the cuts of a write by the end of its process are such.
  The link shares the candidate's file, which nobody writes to afterwards: here it is a copy.
-/

import Mathlib.Data.List.AList
import GitCommitsPush.Installation.StandaloneInstaller
import GitCommitsPush.Lib.FlatObject
import GitCommitsPush.Lib.Interleaving
import GitCommitsPush.Trust.TokenValidation

namespace GitCommitsPush.Installation

open GitCommitsPush.Lib.FlatObject
open GitCommitsPush.Lib.Interleaving
open GitCommitsPush.Lib.JsText
open GitCommitsPush.Lib.JsonDocument (parse)
open GitCommitsPush.Lib.JsonTree
open GitCommitsPush.Lib.Runs
open GitCommitsPush.Trust (Stats sortedKeys asNumber)

/-! ## The record -/

structure InstallLockRecord where
  nonce : String
  pid : Nat
  processIdentity : String
  deriving DecidableEq, Repr

def installLockRecordKeys : List String := ["nonce", "pid", "processIdentity", "version"]

def maxLockRecordBytes : Nat := 4096

/-- `isInstallLockRecord`, with the record. -/
def asInstallLockRecord (record : JsonValue) : Option InstallLockRecord := match record with
  | .object fields =>
    if sortedKeys fields ≠ installLockRecordKeys then none
    else match (JsonValue.object fields).field "version", (JsonValue.object fields).field "nonce",
        asNumber ((JsonValue.object fields).field "pid"), (JsonValue.object fields).field "processIdentity" with
      | some (.number (some 1)), some (.string nonce), some (some pid), some (.string processIdentity) =>
        if isLowerHex 32 nonce.toList && isSafeInteger pid && decide (0 < pid) && decide (0 < length16 processIdentity) &&
            decide (length16 processIdentity ≤ 2048) then some ⟨nonce, pid.toNat, processIdentity⟩
        else none
      | _, _, _, _ => none
  | _ => none

/-- `JSON.stringify(owner)`. -/
def InstallLockRecord.text (owner : InstallLockRecord) : String :=
  String.ofList (flatText ("nonce", .text owner.nonce)
    [("pid", .count owner.pid), ("processIdentity", .text owner.processIdentity), ("version", .count 1)])

structure OwnerFile where
  stats : Stats
  content : String

def hasExpectedOwner (getuid : Option Nat) (uid : Nat) : Bool := getuid = none || getuid = some uid

def isPrivateFile (getuid : Option Nat) (stats : Stats) : Bool :=
  stats.isFile && !stats.isSymbolicLink && stats.mode % 0o1000 == 0o600 && hasExpectedOwner getuid stats.uid

def isPrivateRecord (getuid : Option Nat) (stats : Stats) : Bool :=
  isPrivateFile getuid stats && decide (0 < stats.size) && decide (stats.size ≤ maxLockRecordBytes)

inductive LockError where
  | system (error : InstallError)
  | notAbsolute
  | databaseNotPrivate
  | active (pid : Option Nat)
  | database
  | identity
  | notPrivate
  | malformed
  | invalidRecord
  | liveOwner (pid : Nat)
  | ownershipChanged
  deriving DecidableEq, Repr

def LockError.message (lockPath : String) : LockError → String
  | .system error => error.message
  | .notAbsolute => "Install lock path must be absolute."
  | .databaseNotPrivate => "Install lock must be a private physical file: " ++ lockPath
  | .active (some pid) => "A git-commits-push installer is active (pid " ++ toString pid ++ ")."
  | .active none => "A git-commits-push installer is active."
  | .database => "Cannot acquire the installer lock database: " ++ lockPath
  | .identity => "Cannot establish the installer process-start identity."
  | .notPrivate => "Install lock owner is not a private physical file: " ++ lockPath ++ ".owner"
  | .malformed => "Install lock owner is malformed: " ++ lockPath ++ ".owner"
  | .invalidRecord => "Install lock has an invalid owner record: " ++ lockPath ++ ".owner"
  | .liveOwner pid => "Install lock owner metadata still identifies a live process (pid " ++ toString pid ++ ")."
  | .ownershipChanged => "Install lock ownership changed before release."

/-! ## The directory and the processes -/

abbrev Directory := AList fun _ : String => OwnerFile

/-- What the installers share. -/
structure LockState where
  /-- The directory of the lock, without the database. -/
  directory : Directory
  /-- The process whose connection has the exclusive transaction. -/
  holder : Option Nat
  /-- The processes that run, each with the identity of its start. -/
  processes : AList fun _ : Nat => String
  /-- The processes there have been. -/
  born : List (Nat × String)

def LockState.releaseBy (shared : LockState) (pid : Nat) : LockState :=
  if shared.holder = some pid then { shared with holder := none } else shared

structure LockPath where
  isAbsolute : Bool
  basename : String

variable (lockPath : LockPath)

def ownerRecordName : String := lockPath.basename ++ ".owner"

def candidatePrefix : String := ownerRecordName lockPath ++ ".candidate-"

def candidateName (nonce : String) : String := candidatePrefix lockPath ++ nonce

def staleName (now : Nat) (nonce : String) : String := ownerRecordName lockPath ++ ".stale-" ++ toString now ++ "-" ++ nonce

/-- A name that `removeStaleOwnerCandidates` removes. -/
def isStaleCandidate (name : String) : Bool :=
  (candidatePrefix lockPath).toList.isPrefixOf name.toList &&
    isLowerHex 32 (name.toList.drop (candidatePrefix lockPath).toList.length)

/-! ## An installer -/

/-- Whose record is read, and what for. -/
inductive Purpose where
  | message
  | archive (owner : InstallLockRecord)
  | release (owner : InstallLockRecord)

inductive Outcome where
  | released
  | failed (error : LockError)
  deriving DecidableEq, Repr

inductive Stage where
  | unborn
  | dead
  /-- The process runs, with the outcome of its last call. -/
  | idle (outcome : Option Outcome)
  | ensuring
  | beginning
  | refusing (busy : Bool)
  | identifying
  | listing (owner : InstallLockRecord)
  | removing (owner : InstallLockRecord) (names : List String)
  | looking (owner : InstallLockRecord)
  | stating (purpose : Purpose)
  | reading (purpose : Purpose)
  | probing (owner existing : InstallLockRecord)
  | observing (owner existing : InstallLockRecord)
  | archiving (owner existing : InstallLockRecord)
  | creating (owner : InstallLockRecord) (recovered : Bool)
  | writing (owner : InstallLockRecord) (recovered : Bool)
  | flushing (owner : InstallLockRecord) (recovered : Bool)
  | linking (owner : InstallLockRecord) (recovered : Bool)
  | dropping (owner : InstallLockRecord) (recovered : Bool) (failure : Option LockError)
  | holding (owner : InstallLockRecord) (recovered : Bool)
  | unrecording (owner : InstallLockRecord)
  | committing
  | closing (commitError : Option LockError)
  | rollingBack (error : LockError)
  | aborting (error : LockError)

structure Installer where
  pid : Nat
  processIdentity : String
  /-- The user of the files it makes. -/
  uid : Nat
  /-- `process.getuid()`, where there is one. -/
  getuid : Option Nat
  umask : Nat
  stage : Stage

/-- What the system answers. An error is what the call throws. -/
inductive Answer where
  | started
  | exited
  | collected
  | called
  | ensured (failure : Option InstallError) (stats : Except InstallError Stats)
  | begun (failure : Option Bool)
  | identified (nonce : String) (readable : Bool)
  | listed (names : List String) (refused : Option InstallError)
  | looked (refused : Option InstallError)
  | stated (refused : Option InstallError)
  | read (refused : Bool)
  | probed
  | observed (readable : Bool)
  | archived (now : Nat) (refused : Option InstallError)
  | created (refused : Option InstallError)
  | wrote (cut : String) (refused : Option InstallError)
  | flushed (refused : Option InstallError)
  | linked (refused : Option InstallError)
  | unlinked (refused : Option InstallError)
  | releasing
  | committed (refused : Option InstallError)
  | rolledBack (refused : Bool)
  | closed (refused : Option InstallError)

def enoent : InstallError := ⟨some "ENOENT", "ENOENT: no such file or directory"⟩

def eexist : InstallError := ⟨some "EEXIST", "EEXIST: file already exists"⟩

def Stage.failed (error : LockError) : Stage := .idle (some (.failed error))

/-- `ensureLockDatabaseFile`: what creating it threw, and what `lstatSync` said then. -/
def ensureLockDatabaseFile (getuid : Option Nat) (failure : Option InstallError) (stats : Except InstallError Stats) :
    Except LockError Unit := match failure, stats with
  | some error, stats =>
    if error.code ≠ some "EEXIST" then .error (.system error)
    else match stats with
      | .error error => .error (.system error)
      | .ok stats => if isPrivateFile getuid stats then .ok () else .error .databaseNotPrivate
  | none, .error error => .error (.system error)
  | none, .ok stats => if isPrivateFile getuid stats then .ok () else .error .databaseNotPrivate

/-- The mode of a file that is opened with `0o600`. -/
def createdMode (umask : Nat) : Nat := 0o100000 + (0o600 - (0o600 &&& umask))

def Installer.file (process : Installer) (content : String) : OwnerFile :=
  ⟨⟨true, false, false, createdMode process.umask, content.utf8ByteSize, process.uid⟩, content⟩

/-- The head of the loop over the names. -/
def removeNext (owner : InstallLockRecord) : List String → Stage
  | [] => .looking owner
  | names => .removing owner names

/-- `readOwnerRecord` throws. -/
def Purpose.refused (error : LockError) : Purpose → Stage
  | .message => .failed (.active none)
  | .archive _ => .rollingBack error
  | .release _ => .failed error

/-- `readOwnerRecord` returns. -/
def Purpose.found (existing : InstallLockRecord) : Purpose → Stage
  | .message => .failed (.active (some existing.pid))
  | .archive owner => .probing owner existing
  | .release owner => if existing = owner then .unrecording owner else .failed .ownershipChanged

variable (integerOf : List Char → Option Int)

def readText (content : String) : Except LockError InstallLockRecord := match parse integerOf content with
  | none => .error .malformed
  | some value => match asInstallLockRecord value with
    | none => .error .invalidRecord
    | some record => .ok record

/-- `unlinkSync`: the directory after it, or what it throws. -/
def unlink (directory : Directory) (name : String) (refused : Option InstallError) : Except InstallError Directory :=
  match refused, directory.lookup name with
  | some error, _ => .error error
  | none, none => .error enoent
  | none, some _ => .ok (directory.erase name)

/-- `acquireInstallLock` and `releaseInstallLock`, from one answer of the system to the next. -/
def advance (shared : LockState) (process : Installer) (answer : Answer) : Option (LockState × Installer) :=
  let goto (stage : Stage) : Option (LockState × Installer) := some (shared, { process with stage := stage })
  let change (directory : Directory) (stage : Stage) : Option (LockState × Installer) :=
    some ({ shared with directory := directory }, { process with stage := stage })
  match process.stage, answer with
  | .unborn, .started =>
    if (shared.processes.lookup process.pid).isSome ∨ (process.pid, process.processIdentity) ∈ shared.born then none
    else some ({ shared with
      processes := shared.processes.insert process.pid process.processIdentity
      born := (process.pid, process.processIdentity) :: shared.born }, { process with stage := .idle none })
  | .unborn, .exited => none
  | .dead, .exited => none
  | _, .exited =>
    some ({ shared.releaseBy process.pid with processes := shared.processes.erase process.pid }, { process with stage := .dead })
  | .idle _, .collected => some (shared.releaseBy process.pid, process)
  | .idle _, .called => if lockPath.isAbsolute then goto .ensuring else goto (.failed .notAbsolute)
  | .ensuring, .ensured failure stats => match ensureLockDatabaseFile process.getuid failure stats with
    | .error error => goto (.failed error)
    | .ok _ => goto .beginning
  | .beginning, .begun failure =>
    if shared.holder.isSome then goto (.refusing true)
    else match failure with
      | some busy => goto (.refusing busy)
      | none => some ({ shared with holder := some process.pid }, { process with stage := .identifying })
  | .refusing busy, .closed refused => match refused with
    | some error => goto (.failed (.system error))
    | none => goto (if busy then .stating .message else .failed .database)
  | .identifying, .identified nonce readable =>
    if isLowerHex 32 nonce.toList then
      -- The identity is read outside the `try`: without it the transaction stays open.
      goto (if readable then .listing ⟨nonce, process.pid, process.processIdentity⟩ else .failed .identity)
    else none
  | .listing owner, .listed names refused => match refused with
    | some error => goto (.rollingBack (.system error))
    | none => if names.Perm shared.directory.keys then goto (removeNext owner (names.filter (isStaleCandidate lockPath))) else none
  | .removing owner (name :: names), .unlinked refused => match unlink shared.directory name refused with
    | .error error => goto (.rollingBack (.system error))
    | .ok directory => change directory (removeNext owner names)
  | .looking owner, .looked refused => match refused with
    | some error => if error.code = some "ENOENT" then none else goto (.rollingBack (.system error))
    | none =>
      if (shared.directory.lookup (ownerRecordName lockPath)).isSome then goto (.stating (.archive owner)) else goto (.creating owner false)
  | .stating purpose, .stated refused => match refused, shared.directory.lookup (ownerRecordName lockPath) with
    | some error, _ => goto (purpose.refused (.system error))
    | none, none => goto (purpose.refused (.system enoent))
    | none, some file => goto (if isPrivateRecord process.getuid file.stats then .reading purpose else purpose.refused .notPrivate)
  | .reading purpose, .read refused => match refused, shared.directory.lookup (ownerRecordName lockPath) with
    | true, _ => goto (purpose.refused .malformed)
    | false, none => goto (purpose.refused .malformed)
    | false, some file => match readText integerOf file.content with
      | .error error => goto (purpose.refused error)
      | .ok existing => goto (purpose.found existing)
  | .probing owner existing, .probed =>
    goto (if (shared.processes.lookup existing.pid).isSome then .observing owner existing else .archiving owner existing)
  | .observing owner existing, .observed readable =>
    let observedIdentity := if readable then shared.processes.lookup existing.pid else none
    goto (if observedIdentity = none ∨ observedIdentity = some existing.processIdentity then .rollingBack (.liveOwner existing.pid)
      else .archiving owner existing)
  | .archiving owner _, .archived now refused => match refused, shared.directory.lookup (ownerRecordName lockPath) with
    | some error, _ => goto (.rollingBack (.system error))
    | none, none => goto (.rollingBack (.system enoent))
    | none, some file =>
      change ((shared.directory.erase (ownerRecordName lockPath)).insert (staleName lockPath now owner.nonce) file) (.creating owner true)
  | .creating owner recovered, .created refused => match refused, shared.directory.lookup (candidateName lockPath owner.nonce) with
    | some error, _ => goto (.rollingBack (.system error))
    | none, some _ => goto (.rollingBack (.system eexist))
    | none, none =>
      change (shared.directory.insert (candidateName lockPath owner.nonce) (process.file "")) (.writing owner recovered)
  | .writing owner recovered, .wrote cut refused => match refused with
    | some error =>
      change (shared.directory.insert (candidateName lockPath owner.nonce) (process.file cut)) (.rollingBack (.system error))
    | none =>
      change (shared.directory.insert (candidateName lockPath owner.nonce) (process.file owner.text)) (.flushing owner recovered)
  | .flushing owner recovered, .flushed refused => match refused with
    | some error => goto (.rollingBack (.system error))
    | none => goto (.linking owner recovered)
  | .linking owner recovered, .linked refused =>
    match refused, shared.directory.lookup (candidateName lockPath owner.nonce), shared.directory.lookup (ownerRecordName lockPath) with
    | some error, _, _ => goto (.dropping owner recovered (some (.system error)))
    | none, none, _ => goto (.dropping owner recovered (some (.system enoent)))
    | none, some _, some _ => goto (.dropping owner recovered (some (.system eexist)))
    | none, some file, none =>
      change (shared.directory.insert (ownerRecordName lockPath) file) (.dropping owner recovered none)
  | .dropping owner recovered failure, .unlinked refused =>
    match unlink shared.directory (candidateName lockPath owner.nonce) refused with
    | .error error => goto (.rollingBack (.system error))
    | .ok directory => change directory (match failure with
      | some error => .rollingBack error
      | none => .holding owner recovered)
  | .holding owner _, .releasing => goto (.stating (.release owner))
  | .unrecording _, .unlinked refused => match unlink shared.directory (ownerRecordName lockPath) refused with
    | .error error => goto (.failed (.system error))
    | .ok directory => change directory .committing
  | .committing, .committed refused => match refused with
    | some error => goto (.closing (some (.system error)))
    | none => some (shared.releaseBy process.pid, { process with stage := .closing none })
  | .closing commitError, .closed refused => match refused with
    | some error => goto (.failed (commitError.getD (.system error)))
    | none => some (shared.releaseBy process.pid, { process with stage := .idle (some (match commitError with
      | some error => .failed error
      | none => .released)) })
  | .rollingBack error, .rolledBack refused =>
    some (if refused then shared else shared.releaseBy process.pid, { process with stage := .aborting error })
  | .aborting error, .closed refused => match refused with
    | some error => goto (.failed (.system error))
    | none => some (shared.releaseBy process.pid, { process with stage := .failed error })
  | _, _ => none

/-- Nobody has installed yet: no record, no candidate, no process that counts. -/
structure LockState.Initial (shared : LockState) : Prop where
  directory : ∀ name ∈ shared.directory, name ≠ ownerRecordName lockPath ∧ isStaleCandidate lockPath name = false
  holder : shared.holder = none
  processes : ∀ pid, shared.processes.lookup pid = none

/-- Any number of processes, in any interleaving. -/
def installers : Machine (Parties LockState Installer) (Nat × Answer) where
  init s := s.shared.Initial lockPath ∧ ∀ process ∈ s.members, process.stage = .unborn
  step := (interleaving (fun process : Installer => process.stage = .unborn) fun shared process answer shared' process' =>
    advance lockPath integerOf shared process answer = some (shared', process')).step

end GitCommitsPush.Installation
