/-
  GitCommitsPush.Trust.TokenRoundTrip — a minted token is let through.

  A validation that meets no other call and whose questions to the system are all answered:
  - `Alone`: where it is with the token, kept by each answer (`Alone.step`).
  - `minted_accepted_iff`: it accepts exactly when the record is short enough, its owner's, of this
    time, of a directory its process trusts, and of the process or one of the 63 above it.
-/

import GitCommitsPush.Lib.Computed
import GitCommitsPush.Trust.MintedTokens

namespace GitCommitsPush.Trust

open GitCommitsPush.Lib.Computed
open GitCommitsPush.Lib.FlatObject
open GitCommitsPush.Lib.JsText
open GitCommitsPush.Lib.Runs

variable {sha256 : String → String} {integerOf : List Char → Option Int}

/-- The answers of a system that refuses nothing, reads what is there, and whose processes have these
    parents: `process.ppid`, and numbers `ps` writes. -/
def Obliging (parentOf : Int → Int) (call : Call) (answer : Answer) : Prop := match call.stage, answer with
  | .ensuring _, .store found => ensureStoreDirectory call.process found = true
  | .claiming _, .renamed _ refused => refused = false
  | .inspecting _, .inspected failed => failed = false
  | .reading _, .read _ content => content.isSome = true
  | .walking _ _ candidatePid _, answer => Tells call.process candidatePid answer (parentOf candidatePid) ∧
      (candidatePid = call.process.pid ∨ (isSafeInteger (parentOf candidatePid) = true ∧ 0 ≤ parentOf candidatePid))
  | _, _ => True

/-- One validation by itself. -/
def alone (integerOf : List Char → Option Int) (parentOf : Int → Int) (files : Store) (call : Call) : Machine (Store × Call) Answer where
  init s := s = (files, call)
  step s answer s' := Obliging parentOf s.2 answer ∧ advance integerOf s.1 s.2 answer = some s'

/-- The issuer is the process or one of the 63 above it, and has the parent it had. -/
def Below (parentOf : Int → Int) (pid issuerPid issuerPpid : Int) : Prop :=
  ∃ depth < 64, parentOf^[depth] pid = issuerPid ∧ (∀ i ≤ depth, 0 < parentOf^[i] pid) ∧ parentOf issuerPid = issuerPpid

/-- What a minted record has to be for a call that reads the clock `now`. -/
structure Fitting (minter : Minter) (record : MintedRecord) (process : Process) (now : Option Int) (parentOf : Int → Int) : Prop where
  short : record.text.utf8ByteSize ≤ 4096
  owner : hasExpectedOwner process minter.uid = true
  directory : isAuthorizedTrustTokenIssuerWorkingDirectory process.env record.issuerCwd process.env.homedir = true
  timely : ∃ time, now = some time ∧ (record.createdAt : Int) ≤ time + 1000 ∧ time ≤ record.expiresAt
  below : Below parentOf process.pid record.issuerPid record.issuerPpid

/-- A record of a clock and of processes as systems have them. -/
structure MintedRecord.Sane (record : MintedRecord) : Prop where
  expires : record.expiresAt = record.createdAt + tokenTtlMs.toNat
  safe : isSafeInteger record.expiresAt = true
  pid : 0 < record.issuerPid ∧ isSafeInteger record.issuerPid = true
  ppid : isSafeInteger record.issuerPpid = true
  hash : isTokenPattern record.issuerStackHash = true

theorem currentRecord_sane {record : MintedRecord} (h : record.Sane) (now : Int) :
    currentRecord now record.candidate =
      if (record.createdAt : Int) ≤ now + 1000 ∧ now ≤ record.expiresAt then
        some ⟨record.createdAt, record.expiresAt, record.issuerPid, record.issuerPpid⟩ else none := by
  have hexpires : (record.expiresAt : Int) = record.createdAt + tokenTtlMs := by
    rw [h.expires]
    exact Int.natCast_add _ _
  have hcreated : isSafeInteger record.createdAt = true := by
    have hsafe := h.safe
    rw [hexpires] at hsafe
    have httl : tokenTtlMs = 30000 := rfl
    have hmax : maxSafeInteger = 9007199254740991 := rfl
    obtain ⟨-, habove⟩ := Bool.and_eq_true_iff.mp hsafe
    have habove := of_decide_eq_true habove
    exact Bool.and_eq_true_iff.mpr ⟨decide_eq_true (by omega), decide_eq_true (by omega)⟩
  have hpid : decide ((0 : Int) < record.issuerPid) = true := decide_eq_true (Int.natCast_pos.mpr h.pid.1)
  have hppid : decide ((0 : Int) ≤ record.issuerPpid) = true := decide_eq_true (Int.natCast_nonneg _)
  unfold currentRecord MintedRecord.candidate
  dsimp only
  rw [hcreated, h.safe, h.pid.2, h.ppid, h.hash, hpid, hppid, beq_iff_eq.mpr hexpires]
  by_cases hwindow : (record.createdAt : Int) ≤ now + 1000 ∧ now ≤ record.expiresAt
  · rw [if_pos hwindow, if_pos (by simpa using hwindow)]
  · rw [if_neg hwindow, if_neg (by simpa using hwindow)]

/-- Where a call that meets no other is with a minted token. -/
def Alone (minter : Minter) (record : MintedRecord) (token : String) (parentOf : Int → Int) (files : Store) (call : Call) : Prop :=
  match call.stage with
  | .beginning => files token = some (mintedFile minter record) ∧ call.token = some token
  | .ensuring name | .claiming name => files token = some (mintedFile minter record) ∧ name = token
  | .inspecting claimedPath => files claimedPath = some (mintedFile minter record)
  | .reading claimedPath => files claimedPath = some (mintedFile minter record) ∧ record.text.utf8ByteSize ≤ 4096 ∧
      hasExpectedOwner call.process minter.uid = true
  | .timing _ candidate => candidate = record.candidate ∧ record.text.utf8ByteSize ≤ 4096 ∧ hasExpectedOwner call.process minter.uid = true ∧
      isAuthorizedTrustTokenIssuerWorkingDirectory call.process.env record.issuerCwd call.process.env.homedir = true
  | .walking _ current candidatePid depth => current = ⟨record.createdAt, record.expiresAt, record.issuerPid, record.issuerPpid⟩ ∧
      (Below parentOf call.process.pid record.issuerPid record.issuerPpid → Fitting minter record call.process call.now parentOf) ∧
      candidatePid = parentOf^[depth] call.process.pid ∧ depth < 64 ∧ (∀ i ≤ depth, 0 < parentOf^[i] call.process.pid) ∧
      ∀ i < depth, parentOf^[i] call.process.pid ≠ record.issuerPid
  | .cleaning _ result | .returned result => result = true ↔ Fitting minter record call.process call.now parentOf

section Alone

variable {minter : Minter} {record : MintedRecord} {token : String} {parentOf : Int → Int} {files files' : Store} {call call' : Call}

/-- No process above the issuer's last place is the issuer. -/
theorem below_stop {pid issuerPid issuerPpid : Int} {depth : Nat} (hbefore : ∀ i ≤ depth, parentOf^[i] pid ≠ issuerPid)
    (hstop : 64 ≤ depth + 1 ∨ parentOf^[depth + 1] pid ≤ 0 ∨ parentOf^[depth + 1] pid = parentOf^[depth] pid) :
    ¬ Below parentOf pid issuerPid issuerPpid := by
  rintro ⟨found, hfound, hissuer, hpositive, -⟩
  have hlater : depth < found := by
    by_contra hle
    exact hbefore found (by omega) hissuer
  rcases hstop with hfar | hnone | hsame
  · omega
  · have := hpositive (depth + 1) (by omega)
    omega
  · -- the walk stands still
    have hstill : ∀ k, parentOf^[depth + k] pid = parentOf^[depth] pid := by
      intro k
      induction k with
      | zero => rfl
      | succ k ih =>
        have hnext : parentOf^[depth + k + 1] pid = parentOf (parentOf^[depth + k] pid) := Function.iterate_succ_apply' parentOf _ pid
        rw [← Nat.add_assoc, hnext, ih, ← Function.iterate_succ_apply' parentOf]
        exact hsame
    have hend := hstill (found - depth)
    rw [show depth + (found - depth) = found from by omega, hissuer] at hend
    exact hbefore depth (Nat.le_refl _) hend.symm

theorem isSecureClaimedToken_iff {process : Process} {file : TokenFile} : isSecureClaimedToken process (some file) = true ↔
    file.stats.isFile = true ∧ file.stats.isSymbolicLink = false ∧ file.stats.mode % 0o1000 = 0o600 ∧ 0 < file.stats.size ∧
      file.stats.size ≤ 4096 ∧ hasExpectedOwner process file.stats.uid = true := by
  simp [isSecureClaimedToken, and_assoc]

theorem minted_secure {process : Process} : isSecureClaimedToken process (some (mintedFile minter record)) = true ↔
    record.text.utf8ByteSize ≤ 4096 ∧ hasExpectedOwner process minter.uid = true := by
  have hnonempty : 0 < record.text.utf8ByteSize := by
    refine Nat.pos_of_ne_zero fun hzero => ?_
    have htext := congrArg String.toList (String.utf8ByteSize_eq_zero_iff.mp hzero)
    unfold MintedRecord.text at htext
    rw [String.toList_ofList] at htext
    cases htext
  unfold mintedFile
  rw [isSecureClaimedToken_iff]
  dsimp only
  constructor
  · rintro ⟨-, -, -, -, hshort, howner⟩
    exact ⟨hshort, howner⟩
  · rintro ⟨hshort, howner⟩
    exact ⟨rfl, rfl, by decide, hnonempty, hshort, howner⟩

/-- A parent the system tells is the parent that is read. -/
theorem readParentProcessId_of_tells {process : Process} {asked pid parent : Int} {ppid : Nat} {output : Option String}
    (h : Tells process pid (.parent asked ppid output) parent)
    (hnumber : pid = process.pid ∨ (isSafeInteger parent = true ∧ 0 ≤ parent)) : readParentProcessId process pid ppid output = some parent := by
  obtain ⟨-, htold⟩ := h
  unfold readParentProcessId
  by_cases hown : pid = process.pid
  · rw [if_pos hown] at htold ⊢
    rw [htold]
  · rw [if_neg hown] at htold ⊢
    obtain ⟨text, rfl, hread⟩ := Option.bind_eq_some_iff.mp htold
    obtain ⟨hsafe, hpositive⟩ := hnumber.resolve_left hown
    rw [Option.bind_some, hread, Option.bind_some, if_pos (Bool.and_eq_true_iff.mpr ⟨hsafe, decide_eq_true hpositive⟩)]

theorem Alone.step (hreads : ReadsNumerals integerOf) (hsane : record.Sane) (hpattern : isTokenPattern token = true)
    (h : Alone minter record token parentOf files call) {answer : Answer} (hobliging : Obliging parentOf call answer)
    (hmove : advance integerOf files call answer = some (files', call')) : Alone minter record token parentOf files' call' := by
  unfold advance at hmove
  split at hmove
  · rename_i hstage
    unfold Alone at h
    rw [hstage] at h
    obtain ⟨hfile, htoken⟩ := h
    cases hmove
    rw [htoken]
    dsimp only
    rw [if_pos hpattern]
    exact ⟨hfile, rfl⟩
  · rename_i name found hstage
    unfold Alone at h
    unfold Obliging at hobliging
    rw [hstage] at h hobliging
    have hobliging : ensureStoreDirectory call.process found = true := hobliging
    cases hmove
    rw [if_pos hobliging]
    exact h
  · rename_i name random refused hstage
    unfold Alone at h
    unfold Obliging at hobliging
    rw [hstage] at h hobliging
    obtain ⟨hfile, rfl⟩ := h
    have hobliging : refused = false := hobliging
    rw [hfile, hobliging] at hmove
    cases hmove
    exact if_pos rfl
  · rename_i claimedPath failed hstage
    unfold Alone at h
    unfold Obliging at hobliging
    rw [hstage] at h hobliging
    have h : files claimedPath = some (mintedFile minter record) := h
    have hobliging : failed = false := hobliging
    rw [hobliging, if_neg Bool.false_ne_true, h] at hmove
    dsimp only at hmove
    by_cases hfit : record.text.utf8ByteSize ≤ 4096 ∧ hasExpectedOwner call.process minter.uid = true
    · rw [if_pos (minted_secure.mpr hfit)] at hmove
      cases hmove
      exact ⟨h, hfit⟩
    · rw [if_neg fun hsecure => hfit (minted_secure.mp hsecure)] at hmove
      cases hmove
      exact ⟨(fun hresult => by cases hresult), fun hfitting => absurd ⟨hfitting.short, hfitting.owner⟩ hfit⟩
  · rename_i claimedPath path content hstage
    unfold Alone at h
    unfold Obliging at hobliging
    rw [hstage] at h hobliging
    obtain ⟨hfile, hshort, howner⟩ := h
    have hobliging : content.isSome = true := hobliging
    split at hmove
    · cases hmove
    rename_i hasked
    obtain ⟨hpath, hcontent⟩ := not_or.mp hasked
    rw [not_not.mp hpath, hfile] at hcontent
    rw [not_not.mp fun hne => hcontent ⟨hobliging, hne⟩] at hmove
    dsimp only at hmove
    rw [Option.map_some, Option.bind_some, show (mintedFile minter record).content = record.text from rfl,
      MintedRecord.readCandidate_text hreads] at hmove
    by_cases hdirectory : isAuthorizedTrustTokenIssuerWorkingDirectory call.process.env record.issuerCwd call.process.env.homedir = true
    · rw [if_pos hdirectory] at hmove
      cases hmove
      exact ⟨rfl, hshort, howner, hdirectory⟩
    · rw [if_neg hdirectory] at hmove
      cases hmove
      exact ⟨(fun hresult => by cases hresult), fun hfitting => absurd hfitting.directory hdirectory⟩
  · rename_i claimedPath candidate now hstage
    unfold Alone at h
    rw [hstage] at h
    obtain ⟨rfl, hshort, howner, hdirectory⟩ := h
    rw [currentRecord_sane hsane] at hmove
    by_cases htimely : (record.createdAt : Int) ≤ now + 1000 ∧ now ≤ record.expiresAt
    · rw [if_pos htimely] at hmove
      cases hmove
      unfold Alone walkOn
      by_cases hpositive : 0 < (call.process.pid : Int)
      · rw [if_pos ⟨by decide, hpositive⟩]
        refine ⟨rfl, fun hbelow => ⟨hshort, howner, hdirectory, ⟨now, rfl, htimely⟩, hbelow⟩, rfl, by decide, fun i hi => ?_, fun i hi => ?_⟩
        · rw [Nat.le_zero.mp hi]
          exact hpositive
        · omega
      · rw [if_neg fun hboth => hpositive hboth.2]
        refine ⟨(fun hresult => by cases hresult), fun hfitting => ?_⟩
        obtain ⟨depth, -, -, hall, -⟩ := hfitting.below
        exact absurd (hall 0 (Nat.zero_le _)) hpositive
    · rw [if_neg htimely] at hmove
      cases hmove
      refine ⟨(fun hresult => by cases hresult), fun hfitting => ?_⟩
      obtain ⟨time, htime, hwindow⟩ := hfitting.timely
      cases htime
      exact absurd hwindow htimely
  · rename_i claimedPath current candidatePid depth pid ppid output hstage
    unfold Alone at h
    unfold Obliging at hobliging
    rw [hstage] at h hobliging
    obtain ⟨rfl, hfitting, rfl, hdepth, hpositive, hbefore⟩ := h
    split at hmove
    · cases hmove
    rw [readParentProcessId_of_tells hobliging.1 hobliging.2, ← Function.iterate_succ_apply' parentOf] at hmove
    cases hmove
    unfold Alone climb
    dsimp only
    by_cases hissuer : parentOf^[depth] call.process.pid = (record.issuerPid : Int)
    · rw [if_pos hissuer]
      constructor
      · intro heq
        have heq : parentOf^[depth + 1] call.process.pid = (record.issuerPpid : Int) := by simpa using heq
        exact hfitting ⟨depth, hdepth, hissuer, hpositive, by rw [← hissuer, ← Function.iterate_succ_apply' parentOf, heq]⟩
      · intro hfit
        obtain ⟨_, -, -, -, hparent⟩ := hfit.below
        rw [Function.iterate_succ_apply' parentOf, hissuer, hparent]
        exact beq_self_eq_true _
    · have hall : ∀ i ≤ depth, parentOf^[i] call.process.pid ≠ (record.issuerPid : Int) := by
        intro i hi
        rcases Nat.lt_or_eq_of_le hi with hlt | rfl
        · exact hbefore i hlt
        · exact hissuer
      rw [if_neg hissuer]
      by_cases hsame : parentOf^[depth + 1] call.process.pid = parentOf^[depth] call.process.pid
      · rw [if_pos hsame]
        exact ⟨(fun hresult => by cases hresult), fun hfit => absurd hfit.below (below_stop hall (.inr (.inr hsame)))⟩
      · rw [if_neg hsame]
        unfold walkOn
        by_cases hon : depth + 1 < 64 ∧ 0 < parentOf^[depth + 1] call.process.pid
        · rw [if_pos hon]
          refine ⟨rfl, hfitting, rfl, hon.1, fun i hi => ?_, fun i hi => hall i (by omega)⟩
          rcases Nat.lt_or_eq_of_le hi with hlt | rfl
          · exact hpositive i (by omega)
          · exact hon.2
        · rw [if_neg hon]
          refine ⟨(fun hresult => by cases hresult), fun hfit => absurd hfit.below (below_stop hall ?_)⟩
          by_cases hnear : depth + 1 < 64
          · exact .inr (.inl (not_lt.mp fun hup => hon ⟨hnear, hup⟩))
          · exact .inl (by omega)
  · rename_i claimedPath result refused hstage
    unfold Alone at h
    rw [hstage] at h
    cases hmove
    exact h
  · cases hmove

end Alone

/-- A minted token is accepted exactly when its record has a length a reader takes, is its owner's,
    of a directory the call's process trusts, half a minute old at most, and of the process or one
    of the 63 above it. -/
theorem minted_accepted_iff (sha256 : String → String) (integerOf : List Char → Option Int) (hreads : ReadsNumerals integerOf)
    {minter : Minter} {stack token : String} {createdAt : Nat} {record : MintedRecord} {parentOf : Int → Int} {files files' : Store}
    {call call' : Call} {answers : List Answer} {result : Bool}
    (hcreated : createTrustTokenRecord sha256 minter stack createdAt = .ok record) (hsane : record.Sane)
    (hfile : files token = some (mintedFile minter record)) (hpattern : isTokenPattern token = true)
    (hfresh : call.Fresh) (htoken : call.token = some token)
    (h : Run (alone integerOf parentOf files call) answers (files', call')) (hreturned : call'.stage = .returned result) :
    result = true ↔ (record.text.utf8ByteSize ≤ 4096 ∧ hasExpectedOwner call.process minter.uid = true ∧
      isAuthorizedTrustTokenIssuerWorkingDirectory call.process.env minter.cwd call.process.env.homedir = true) ∧
      (∃ now, call'.now = some now ∧ (createdAt : Int) ≤ now + 1000 ∧ now ≤ createdAt + tokenTtlMs) ∧
      Below parentOf call.process.pid minter.pid minter.ppid := by
  have halone : Alone minter record token parentOf files' call' ∧ call'.process = call.process := by
    refine Run.invariant (I := fun s => Alone minter record token parentOf s.1 s.2 ∧ s.2.process = call.process) (fun s hinit => ?_)
      (fun s answer s' hs hstep => ?_) h
    · rw [show s = (files, call) from hinit]
      refine ⟨?_, rfl⟩
      unfold Alone
      dsimp only
      rw [hfresh.stage]
      exact ⟨hfile, htoken⟩
    · exact ⟨hs.1.step hreads hsane hpattern hstep.1 hstep.2, (advance_process hstep.2).trans hs.2⟩
  obtain ⟨hstate, hprocess⟩ := halone
  unfold Alone at hstate
  rw [hreturned, hprocess] at hstate
  obtain ⟨-, -, rfl⟩ := createTrustTokenRecord_eq_ok hcreated
  refine hstate.trans ⟨fun hfit => ⟨⟨hfit.short, hfit.owner, hfit.directory⟩, ?_, hfit.below⟩, fun hfit => ?_⟩
  · obtain ⟨now, hnow, hearly, hlate⟩ := hfit.timely
    refine ⟨now, hnow, hearly, ?_⟩
    have hlate : now ≤ ((createdAt + tokenTtlMs.toNat : Nat) : Int) := hlate
    have httl : tokenTtlMs = 30000 := rfl
    omega
  · obtain ⟨⟨hshort, howner, hdirectory⟩, ⟨now, hnow, hearly, hlate⟩, hbelow⟩ := hfit
    refine ⟨hshort, howner, hdirectory, ⟨now, hnow, hearly, ?_⟩, hbelow⟩
    show now ≤ ((createdAt + tokenTtlMs.toNat : Nat) : Int)
    have httl : tokenTtlMs = 30000 := rfl
    omega

instance (process : Process) (pid : Int) (answer : Answer) (parent : Int) : Decidable (Tells process pid answer parent) := by
  unfold Tells
  split <;> infer_instance

instance (parentOf : Int → Int) (call : Call) (answer : Answer) : Decidable (Obliging parentOf call answer) := by
  unfold Obliging
  split <;> infer_instance

theorem sampleMinted_created : createTrustTokenRecord sampleSha256 sampleMinter sampleStack 5000 = .ok sampleMinted := by
  unfold createTrustTokenRecord
  rw [if_neg (by decide +kernel), if_neg (by decide +kernel)]
  rfl

theorem sampleMinted_sane : sampleMinted.Sane := ⟨rfl, by decide, by decide, by decide, by decide⟩

def sampleFiles : Store := fun name => if name = sampleToken then some (mintedFile sampleMinter sampleMinted) else none

/-- Process 12 is a child of 10, which is a child of 9. -/
def sampleParents (pid : Int) : Int := if pid = 12 then 10 else if pid = 10 then 9 else 1

def sampleAlone : List Answer :=
  [.called, .store sampleStore, .renamed "00" false, .inspected false, .read (claimedName sampleToken 12 "00") (some sampleMinted.text),
    .clock 20000, .parent 12 10 none, .parent 10 10 (some " 9\n"), .removed false]

theorem sampleAlone_result : ((follow (fun s answer => if Obliging sampleParents s.2 answer then advance sampleIntegerOf s.1 s.2 answer else none)
    (sampleFiles, sampleValidation) sampleAlone).map fun s => s.2.result) = some (some true) := by
  unfold advance
  rw [parse_known sampleIntegerOf_reads ("version", .count 1) sampleMintedFields (by decide)]
  decide +kernel

theorem minted_accepted_iff_sample : ∃ call : Call, call.stage = .returned true ∧ Below sampleParents 12 10 9 := by
  obtain ⟨⟨files, call⟩, hfollow, hresult⟩ := Option.map_eq_some_iff.mp sampleAlone_result
  have hsteps : Steps (alone sampleIntegerOf sampleParents sampleFiles sampleValidation) (sampleFiles, sampleValidation) sampleAlone (files, call) := by
    refine follow_steps (fun hstep => ?_) hfollow
    split at hstep
    · rename_i hobliging
      exact ⟨hobliging, hstep⟩
    · cases hstep
  have hreturned : call.stage = .returned true := Call.stage_of_result hresult
  have hiff := minted_accepted_iff sampleSha256 sampleIntegerOf sampleIntegerOf_reads sampleMinted_created sampleMinted_sane (if_pos rfl)
    (by decide) ⟨rfl, rfl, rfl⟩ rfl ⟨_, rfl, hsteps⟩ hreturned
  exact ⟨call, hreturned, (hiff.mp rfl).2.2⟩

end GitCommitsPush.Trust
