/-
  GitCommitsPush.Trust.TokenMinting — `createTrustToken`, among the calls that validate.

  A helper that is about to run Git mints a token: it shows its stack, makes sure of the store,
  writes its record under a random name and hands the name on. Every answer of the system is a
  turn of its own, and mints and validations share one store.

  A token's file appears with its content: a claim in between would find an empty file, and refuse
  it. The digest of the stack is a parameter.
-/

import GitCommitsPush.Lib.FlatObject
import GitCommitsPush.Trust.TokenClaims

namespace GitCommitsPush.Trust

open GitCommitsPush.Lib.FlatObject
open GitCommitsPush.Lib.Interleaving
open GitCommitsPush.Lib.Runs
open GitCommitsPush.Lib.PosixPath

/-- A process that runs the trust module from `trustPackageDirectory`. -/
structure Minter extends Process where
  ppid : Nat
  cwd : String
  uid : Nat
  trustPackageDirectory : String
  /-- `TRUST_TOKEN_STORE_DIRECTORY`. -/
  storeDirectory : String

/-- The record with all its fields. -/
structure MintedRecord where
  createdAt : Nat
  expiresAt : Nat
  issuerPid : Nat
  issuerPpid : Nat
  issuerCwd : String
  issuerStackHash : String

/-- `JSON.stringify(record)`. -/
def MintedRecord.text (record : MintedRecord) : String :=
  String.ofList (flatText ("version", .count 1)
    [("issuer", .text trustedIssuer), ("createdAt", .count record.createdAt), ("expiresAt", .count record.expiresAt),
      ("issuerPid", .count record.issuerPid), ("issuerPpid", .count record.issuerPpid), ("issuerCwd", .text record.issuerCwd),
      ("issuerStackHash", .text record.issuerStackHash)])

inductive MintError where
  | reported (message : String)
  /-- What a system call throws. -/
  | system
  deriving DecidableEq, Repr

def trustModuleCanMintFrom (env : TrustEnvironment) (trustPackageDirectory workingDirectory : String) : Bool :=
  let normalizedWorkingDirectory := canonicalizeExistingPath env workingDirectory
  match env.workspaceRuntimeRoot with
  | some workspaceRuntimeRoot =>
    let sourceRoot := canonicalizeExistingPath env workspaceRuntimeRoot
    normalizedWorkingDirectory == sourceRoot || normalizedWorkingDirectory == join [sourceRoot, "dist"]
  | none => match installedReleaseRootForPath env trustPackageDirectory with
    | none => false
    | some moduleReleaseRoot => normalizedWorkingDirectory == join [moduleReleaseRoot, "dist"]

variable (sha256 : String → String)

def createTrustTokenRecord (minter : Minter) (stack : String) (now : Nat) : Except MintError MintedRecord :=
  if isAuthorizedTrustTokenIssuerStack minter.env (some stack) minter.cwd = false then
    .error (.reported "Trust tokens can only be created by git-commits-push internal git helpers.")
  else if trustModuleCanMintFrom minter.env minter.trustPackageDirectory minter.cwd = false then
    .error (.reported "Trust tokens require the executing git-commits-push runtime directory.")
  else .ok ⟨now, now + tokenTtlMs.toNat, minter.pid, minter.ppid, minter.cwd, sha256 stack⟩

inductive MintStage where
  | beginning
  | ensuring (stack : String)
  | recording (stack : String)
  | writing (record : MintedRecord) (attempt : Nat)
  | returned (token : String)
  | thrown (error : MintError)

/-- A call, with the record it has made. -/
structure Mint where
  minter : Minter
  stage : MintStage
  record : Option MintedRecord

inductive MintAnswer where
  /-- `new Error().stack`. -/
  | called (stack : Option String)
  | store (found : StoreReading)
  | clock (now : Nat)
  /-- The name drawn, and whether its file cannot be made for another reason than that it exists. -/
  | wrote (token : String) (failed : Bool)

/-- A file of the mode and the owner `writeFileSync` gives it. -/
def mintedFile (minter : Minter) (record : MintedRecord) : TokenFile :=
  ⟨⟨true, false, false, 0o100600, record.text.utf8ByteSize, minter.uid⟩, record.text⟩

/-- `ensureStoreDirectory`, and what it throws. -/
def storeError (minter : Minter) (found : StoreReading) : Option MintError :=
  if ensureStoreDirectory minter.toProcess found then none
  else if (found.existing || found.made) && found.stats.isSome then
    some (.reported ("Trust token store is not a private physical directory: " ++ minter.storeDirectory))
  else some .system

/-- `createTrustToken`, from one answer of the system to the next. -/
def mintTurn (files : Store) (mint : Mint) (answer : MintAnswer) : Option (Store × Mint) := match mint.stage, answer with
  | .beginning, .called stack => match stack with
    | none => some (files, { mint with stage := .thrown (.reported "Unable to establish the trust token issuer stack.") })
    | some stack =>
      if stack = "" then some (files, { mint with stage := .thrown (.reported "Unable to establish the trust token issuer stack.") })
      else some (files, { mint with stage := .ensuring stack })
  | .ensuring stack, .store found => some (files, { mint with stage := match storeError mint.minter found with
      | some error => .thrown error
      | none => .recording stack })
  | .recording stack, .clock now => match createTrustTokenRecord sha256 mint.minter stack now with
    | .error error => some (files, { mint with stage := .thrown error })
    | .ok record => some (files, { mint with stage := .writing record 0, record := some record })
  | .writing record attempt, .wrote token failed =>
    if isTokenPattern token = false then none
    else if failed then some (files, { mint with stage := .thrown .system })
    else match files token with
      -- EEXIST
      | some _ => some (files, { mint with
          stage := if attempt + 1 < 3 then .writing record (attempt + 1) else .thrown (.reported "Unable to allocate a unique trust token.") })
      | none => some (files.put token (some (mintedFile mint.minter record)), { mint with stage := .returned token })
  | _, _ => none

structure Mint.Fresh (mint : Mint) : Prop where
  stage : mint.stage = .beginning
  record : mint.record = none

/-! ## Mints and validations -/

inductive TrustCall where
  | minting (mint : Mint)
  | validating (call : Call)

inductive TrustAnswer where
  | mint (answer : MintAnswer)
  | validation (answer : Answer)

def TrustCall.Fresh : TrustCall → Prop
  | .minting mint => mint.Fresh
  | .validating call => call.Fresh

variable (integerOf : List Char → Option Int)

def trustTurn (files : Store) (party : TrustCall) (answer : TrustAnswer) : Option (Store × TrustCall) := match party, answer with
  | .minting mint, .mint answer => (mintTurn sha256 files mint answer).map fun moved => (moved.1, .minting moved.2)
  | .validating call, .validation answer => (advance integerOf files call answer).map fun moved => (moved.1, .validating moved.2)
  | _, _ => none

/-- Any number of mints and validations, in any interleaving, over a store that holds no token yet. -/
def trusting : Machine (Parties Store TrustCall) (Nat × TrustAnswer) where
  init s := (∀ party ∈ s.members, party.Fresh) ∧ ∀ name, isTokenPattern name = true → s.shared name = none
  step := (interleaving TrustCall.Fresh fun files party answer files' party' =>
    trustTurn sha256 integerOf files party answer = some (files', party')).step

/-- The name a turn draws for a token. -/
def drawn (label : Nat × TrustAnswer) : Option String := match label.2 with
  | .mint (.wrote token _) => some token
  | _ => none

end GitCommitsPush.Trust
