/-
  GitCommitsPush.Trust.TokenValidation — `validateTrustToken`, one system call at a time.

  A call claims the token's file by a rename, looks at it, checks its record against the clock,
  looks for the issuer among its own ancestors and removes the file. Every answer of the system
  is a turn of its own, so calls of other processes may come between any two; renames and
  removals are atomic and may be refused.
-/

import Mathlib.Data.List.Sort
import GitCommitsPush.Lib.Interleaving
import GitCommitsPush.Lib.JsonDocument
import GitCommitsPush.Trust.IssuerStack

namespace GitCommitsPush.Trust

open GitCommitsPush.Installation (isLowerHex)
open GitCommitsPush.Lib.Interleaving
open GitCommitsPush.Lib.JsonDocument (parse)
open GitCommitsPush.Lib.JsonTree
open GitCommitsPush.Lib.JsText
open GitCommitsPush.Lib.Runs

/-! ## The store -/

structure Stats where
  isFile : Bool
  isDirectory : Bool
  isSymbolicLink : Bool
  mode : Nat
  size : Nat
  uid : Nat

structure TokenFile where
  stats : Stats
  content : String

/-- The entries of the store's directory. -/
abbrev Store := String → Option TokenFile

def Store.put (files : Store) (name : String) (file : Option TokenFile) : Store := fun other => if other = name then file else files other

/-- `renameSync` within the directory. -/
def Store.rename (files : Store) (source target : String) (file : TokenFile) : Store := (files.put source none).put target (some file)

/-! ## The record -/

def tokenTtlMs : Int := 30000

/-- `^[a-f0-9]{64}$`. -/
def isTokenPattern (text : String) : Bool := isLowerHex 64 text.toList

def trustedIssuer : String := "git-commits-push-internal-git-helper"

def trustTokenRecordKeys : List String :=
  ["createdAt", "expiresAt", "issuer", "issuerCwd", "issuerPid", "issuerPpid", "issuerStackHash", "version"]

/-- A record whose fields have their types: a number that is no integer is nothing. -/
structure Candidate where
  createdAt : Option Int
  expiresAt : Option Int
  issuerPid : Option Int
  issuerPpid : Option Int
  issuerStackHash : String

structure TrustTokenRecord where
  createdAt : Int
  expiresAt : Int
  issuerPid : Int
  issuerPpid : Int

structure Process where
  pid : Nat
  /-- `process.getuid()`, where there is one. -/
  getuid : Option Nat
  env : TrustEnvironment

/-- `Object.keys(record).sort()`. -/
def sortedKeys (fields : List (String × JsonValue)) : List String :=
  List.insertionSort (fun a b => unitsLe a b = true) (fields.map (·.1))

def asNumber : Option JsonValue → Option (Option Int)
  | some (.number integer) => some integer
  | _ => none

/-- The first half of `isValidRecord`: the record's form and its issuer. -/
def readCandidate (env : TrustEnvironment) (record : JsonValue) : Option Candidate := match record with
  | .object fields =>
    if sortedKeys fields ≠ trustTokenRecordKeys then none
    else match (JsonValue.object fields).field "version", (JsonValue.object fields).field "issuer" with
      | some (.number (some 1)), some (.string issuer) =>
        if issuer ≠ trustedIssuer then none
        else match asNumber ((JsonValue.object fields).field "createdAt"), asNumber ((JsonValue.object fields).field "expiresAt"),
            asNumber ((JsonValue.object fields).field "issuerPid"), asNumber ((JsonValue.object fields).field "issuerPpid"),
            (JsonValue.object fields).field "issuerCwd", (JsonValue.object fields).field "issuerStackHash" with
          | some createdAt, some expiresAt, some issuerPid, some issuerPpid, some (.string issuerCwd), some (.string issuerStackHash) =>
            if isAuthorizedTrustTokenIssuerWorkingDirectory env issuerCwd env.homedir then
              some ⟨createdAt, expiresAt, issuerPid, issuerPpid, issuerStackHash⟩
            else none
          | _, _, _, _, _, _ => none
      | _, _ => none
  | _ => none

/-- The second half of `isValidRecord`, up to the issuer's process. -/
def currentRecord (now : Int) (candidate : Candidate) : Option TrustTokenRecord :=
  match candidate.createdAt, candidate.expiresAt, candidate.issuerPid, candidate.issuerPpid with
  | some createdAt, some expiresAt, some issuerPid, some issuerPpid =>
    if isSafeInteger createdAt && isSafeInteger expiresAt && expiresAt == createdAt + tokenTtlMs && decide (createdAt ≤ now + 1000) &&
        decide (now ≤ expiresAt) && isSafeInteger issuerPid && decide (0 < issuerPid) && isSafeInteger issuerPpid &&
        decide (0 ≤ issuerPpid) && isTokenPattern candidate.issuerStackHash then
      some ⟨createdAt, expiresAt, issuerPid, issuerPpid⟩
    else none
  | _, _, _, _ => none

/-! ## Ancestors -/

def digitsValue (digits : List Char) : Int := digits.foldl (fun n c => 10 * n + (c.toNat - '0'.toNat : Nat)) 0

/-- `Number.parseInt(text, 10)`; nothing is NaN. -/
def parseInt (text : List Char) : Option Int :=
  let rest := trimStart text
  let negative := rest.head? == some '-'
  let digits := (if negative ∨ rest.head? = some '+' then rest.drop 1 else rest).takeWhile Char.isDigit
  if digits = [] then none else some (if negative then -digitsValue digits else digitsValue digits)

/-- The parent of a process: `process.ppid` of one's own, else what `ps` writes, unless it fails. -/
def readParentProcessId (process : Process) (pid : Int) (ppid : Nat) (output : Option String) : Option Int :=
  if pid = process.pid then some ppid
  else output.bind fun output => (parseInt (trim output.toList)).bind fun parentPid =>
    if isSafeInteger parentPid && decide (0 ≤ parentPid) then some parentPid else none

/-! ## A call -/

/-- Where a call is. From the claim on it has a claimed path, from the clock on a record. -/
inductive Stage where
  | beginning
  | ensuring (token : String)
  | claiming (token : String)
  | inspecting (claimedPath : String)
  | reading (claimedPath : String)
  | timing (claimedPath : String) (candidate : Candidate)
  | walking (claimedPath : String) (record : TrustTokenRecord) (candidatePid : Int) (depth : Nat)
  | cleaning (claimedPath : String) (result : Bool)
  | returned (result : Bool)

/-- A call, with the path it claimed and the clock it read. -/
structure Call where
  token : Option String
  process : Process
  stage : Stage
  claimedPath : Option String
  now : Option Int

structure StoreReading where
  existing : Bool
  /-- `mkdirSync` does not throw. -/
  made : Bool
  stats : Option Stats

inductive Answer where
  | called
  | store (found : StoreReading)
  | renamed (random : String) (refused : Bool)
  | inspected (failed : Bool)
  /-- What `readFileSync` gives of the path; nothing where it throws. -/
  | read (path : String) (content : Option String)
  | clock (now : Int)
  /-- The process asked about, `process.ppid`, and what `ps` writes of it; nothing where it fails. -/
  | parent (pid : Int) (ppid : Nat) (output : Option String)
  | removed (refused : Bool)

def hasExpectedOwner (process : Process) (uid : Nat) : Bool := process.getuid = none || process.getuid = some uid

/-- `ensureStoreDirectory` does not throw. -/
def ensureStoreDirectory (process : Process) (found : StoreReading) : Bool :=
  (found.existing || found.made) && match found.stats with
    | none => false
    | some stats => stats.isDirectory && !stats.isSymbolicLink && stats.mode % 0o1000 == 0o700 && hasExpectedOwner process stats.uid

def isSecureClaimedToken (process : Process) (found : Option TokenFile) : Bool := match found with
  | none => false
  | some file => file.stats.isFile && !file.stats.isSymbolicLink && file.stats.mode % 0o1000 == 0o600 && decide (0 < file.stats.size) &&
      decide (file.stats.size ≤ 4096) && hasExpectedOwner process file.stats.uid

def claimedName (token : String) (pid : Nat) (random : String) : String := token ++ ".claimed-" ++ toString pid ++ "-" ++ random

/-- The head of the loop over the ancestors. -/
def walkOn (claimedPath : String) (record : TrustTokenRecord) (candidatePid : Int) (depth : Nat) : Stage :=
  if depth < 64 ∧ 0 < candidatePid then .walking claimedPath record candidatePid depth else .cleaning claimedPath false

/-- One turn of the loop over the ancestors. -/
def climb (claimedPath : String) (record : TrustTokenRecord) (candidatePid : Int) (depth : Nat) (parentPid : Option Int) : Stage :=
  if candidatePid = record.issuerPid then .cleaning claimedPath (parentPid == some record.issuerPpid)
  else match parentPid with
    | none => .cleaning claimedPath false
    | some parentPid => if parentPid = candidatePid then .cleaning claimedPath false else walkOn claimedPath record parentPid (depth + 1)

variable (integerOf : List Char → Option Int)

/-- `validateTrustToken`, from one answer of the system to the next. -/
def advance (files : Store) (call : Call) (answer : Answer) : Option (Store × Call) := match call.stage, answer with
  | .beginning, .called =>
    some (files, { call with stage := match call.token with
      | none => .returned false
      | some token => if isTokenPattern token then .ensuring token else .returned false })
  | .ensuring token, .store found =>
    some (files, { call with stage := if ensureStoreDirectory call.process found then .claiming token else .returned false })
  | .claiming token, .renamed random refused => match files token with
    | none => some (files, { call with stage := .returned false })
    | some file =>
      let claimedPath := claimedName token call.process.pid random
      if refused then some (files, { call with stage := .returned false })
      else some (files.rename token claimedPath file, { call with stage := .inspecting claimedPath, claimedPath := some claimedPath })
  | .inspecting claimedPath, .inspected failed =>
    let found := if failed then none else files claimedPath
    some (files, { call with stage := if isSecureClaimedToken call.process found then .reading claimedPath else .cleaning claimedPath false })
  | .reading claimedPath, .read path content =>
    -- the file at the claimed path is read as it is, or not at all
    if path ≠ claimedPath ∨ (content.isSome = true ∧ content ≠ (files path).map TokenFile.content) then none
    else
      let candidate := content.bind fun content => (parse integerOf content).bind (readCandidate call.process.env)
      some (files, { call with stage := match candidate with
        | none => .cleaning claimedPath false
        | some candidate => .timing claimedPath candidate })
  | .timing claimedPath candidate, .clock now => match currentRecord now candidate with
    | none => some (files, { call with stage := .cleaning claimedPath false, now := some now })
    | some record => some (files, { call with stage := walkOn claimedPath record call.process.pid 0, now := some now })
  | .walking claimedPath record candidatePid depth, .parent pid ppid output =>
    if pid ≠ candidatePid then none
    else some (files, { call with
      stage := climb claimedPath record candidatePid depth (readParentProcessId call.process candidatePid ppid output) })
  | .cleaning claimedPath result, .removed refused =>
    some (if refused then files else files.put claimedPath none, { call with stage := .returned result })
  | _, _ => none

/-- A call that has not begun. -/
structure Call.Fresh (call : Call) : Prop where
  stage : call.stage = .beginning
  claimedPath : call.claimedPath = none
  now : call.now = none

/-- Any number of calls, in any interleaving. -/
def validation : Machine (Parties Store Call) (Nat × Answer) :=
  interleaving Call.Fresh fun files call answer files' call' => advance integerOf files call answer = some (files', call')

end GitCommitsPush.Trust
