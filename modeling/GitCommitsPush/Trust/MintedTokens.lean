/-
  GitCommitsPush.Trust.MintedTokens — what is accepted was minted.

  Every token in the store is the record of a mint that has returned it, and a claim carries that
  record away under a name of its own.
  - `MintedRecord.readCandidate_text`: a record reads back from its text.
  - `accepted_was_minted`: over every interleaving of mints and validations, a call that accepts
    stands below the process that minted its token, from a helper's stack in the directory of the
    running module, half a minute ago at most; and no two calls accept one token.
-/

import GitCommitsPush.Trust.TokenMinting

namespace GitCommitsPush.Trust

open GitCommitsPush.Installation (isLowerHex)
open GitCommitsPush.Lib.FlatObject
open GitCommitsPush.Lib.Interleaving
open GitCommitsPush.Lib.JsText
open GitCommitsPush.Lib.JsonDocument (parse)
open GitCommitsPush.Lib.JsonTree
open GitCommitsPush.Lib.Runs

variable {sha256 : String → String} {integerOf : List Char → Option Int}

/-! ## The record reads back -/

/-- What a validation makes of a record. -/
def MintedRecord.candidate (record : MintedRecord) : Candidate :=
  ⟨some record.createdAt, some record.expiresAt, some record.issuerPid, some record.issuerPpid, record.issuerStackHash⟩

theorem MintedRecord.readCandidate_text (hreads : ReadsNumerals integerOf) (env : TrustEnvironment) (record : MintedRecord) :
    (parse integerOf record.text).bind (readCandidate env) =
      if isAuthorizedTrustTokenIssuerWorkingDirectory env record.issuerCwd env.homedir then some record.candidate else none := by
  have hparse : parse integerOf record.text = some (.object [("version", .number (some (1 : Int))), ("issuer", .string trustedIssuer),
      ("createdAt", .number (some (record.createdAt : Int))), ("expiresAt", .number (some (record.expiresAt : Int))),
      ("issuerPid", .number (some (record.issuerPid : Int))), ("issuerPpid", .number (some (record.issuerPpid : Int))),
      ("issuerCwd", .string record.issuerCwd), ("issuerStackHash", .string record.issuerStackHash)]) :=
    parse_flatText hreads _ _ (by
      show (["version", "issuer", "createdAt", "expiresAt", "issuerPid", "issuerPpid", "issuerCwd", "issuerStackHash"] : List String).Nodup
      decide)
  have hkeys : sortedKeys [("version", .number (some (1 : Int))), ("issuer", .string trustedIssuer),
      ("createdAt", .number (some (record.createdAt : Int))), ("expiresAt", .number (some (record.expiresAt : Int))),
      ("issuerPid", .number (some (record.issuerPid : Int))), ("issuerPpid", .number (some (record.issuerPpid : Int))),
      ("issuerCwd", .string record.issuerCwd), ("issuerStackHash", .string record.issuerStackHash)] = trustTokenRecordKeys := by
    show List.insertionSort (fun a b => unitsLe a b = true)
      ["version", "issuer", "createdAt", "expiresAt", "issuerPid", "issuerPpid", "issuerCwd", "issuerStackHash"] = trustTokenRecordKeys
    decide
  rw [hparse, Option.bind_some]
  unfold readCandidate
  dsimp only
  rw [if_neg (not_not_intro hkeys)]
  rfl

theorem createTrustTokenRecord_eq_ok {minter : Minter} {stack : String} {now : Nat} {record : MintedRecord}
    (h : createTrustTokenRecord sha256 minter stack now = .ok record) :
    isAuthorizedTrustTokenIssuerStack minter.env (some stack) minter.cwd = true ∧
      trustModuleCanMintFrom minter.env minter.trustPackageDirectory minter.cwd = true ∧
      record = ⟨now, now + tokenTtlMs.toNat, minter.pid, minter.ppid, minter.cwd, sha256 stack⟩ := by
  unfold createTrustTokenRecord at h
  split at h
  · cases h
  · rename_i hstack
    split at h
    · cases h
    · rename_i hruntime
      exact ⟨by simpa using hstack, by simpa using hruntime, (Except.ok.inj h).symm⟩

/-! ## What a mint does -/

/-- The record comes from a stack that was shown. -/
def Recorded (sha256 : String → String) (mint : Mint) (record : MintedRecord) : Prop :=
  mint.record = some record ∧ ∃ stack now, createTrustTokenRecord sha256 mint.minter stack now = .ok record

def MintState (sha256 : String → String) (mint : Mint) : Prop := match mint.stage with
  | .writing record _ => Recorded sha256 mint record
  | .returned token => isTokenPattern token = true ∧ ∃ record, Recorded sha256 mint record
  | _ => True

/-- What a turn of a mint does to the store. -/
inductive Minting (files : Store) (mint : Mint) (answer : MintAnswer) (files' : Store) (mint' : Mint) : Prop
  | still : files' = files → (∀ token, mint'.stage ≠ .returned token) → Minting files mint answer files' mint'
  | written (token : String) (record : MintedRecord) : isTokenPattern token = true → files token = none →
      answer = .wrote token false → files' = files.put token (some (mintedFile mint.minter record)) → mint'.stage = .returned token →
      mint'.record = some record → Minting files mint answer files' mint'

theorem mintTurn_keeps {files files' : Store} {mint mint' : Mint} {answer : MintAnswer} (hstate : MintState sha256 mint)
    (h : mintTurn sha256 files mint answer = some (files', mint')) :
    MintState sha256 mint' ∧ mint'.minter = mint.minter ∧ (∀ token, mint.stage ≠ .returned token) ∧ Minting files mint answer files' mint' := by
  unfold MintState at hstate
  unfold mintTurn at h
  split at h
  · rename_i hstage
    split at h
    · cases h
      exact ⟨trivial, rfl, by simp [hstage], .still rfl fun _ heq => by cases heq⟩
    · split at h <;> cases h <;> exact ⟨trivial, rfl, by simp [hstage], .still rfl fun _ heq => by cases heq⟩
  · rename_i found hstage
    cases h
    refine ⟨?_, rfl, by simp [hstage], .still rfl fun token heq => ?_⟩
    · unfold MintState
      cases storeError mint.minter found <;> exact trivial
    · revert heq
      dsimp only
      cases storeError mint.minter found <;> exact fun heq => by cases heq
  · rename_i stack now hstage
    cases hrecord : createTrustTokenRecord sha256 mint.minter stack now with
    | error error =>
      rw [hrecord] at h
      cases h
      exact ⟨trivial, rfl, by simp [hstage], .still rfl fun _ heq => by cases heq⟩
    | ok record =>
      rw [hrecord] at h
      cases h
      exact ⟨⟨rfl, stack, now, hrecord⟩, rfl, by simp [hstage], .still rfl fun _ heq => by cases heq⟩
  · rename_i record attempt token failed hstage
    rw [hstage] at hstate
    split at h
    · cases h
    rename_i hpattern
    have hpattern : isTokenPattern token = true := by simpa using hpattern
    split at h
    · cases h
      exact ⟨trivial, rfl, by simp [hstage], .still rfl fun _ heq => by cases heq⟩
    rename_i hfailed
    split at h
    · cases h
      by_cases hmore : attempt + 1 < 3
      · rw [if_pos hmore]
        exact ⟨hstate, rfl, by simp [hstage], .still rfl fun _ heq => by cases heq⟩
      · rw [if_neg hmore]
        exact ⟨trivial, rfl, by simp [hstage], .still rfl fun _ heq => by cases heq⟩
    · rename_i habsent
      cases h
      have hok : failed = false := by simpa using hfailed
      exact ⟨⟨hpattern, record, hstate⟩, rfl, by simp [hstage],
        .written token record hpattern habsent (by rw [hok]) rfl rfl hstate.1⟩
  · cases h

/-! ## Tokens and their records -/

/-- A mint has returned the token, and this is its record. -/
def MintedAs (sha256 : String → String) (members : List TrustCall) (token : String) (record : MintedRecord) : Prop :=
  ∃ mint, .minting mint ∈ members ∧ mint.stage = .returned token ∧ Recorded sha256 mint record

/-- The file, if there is one, is a mint's of this token. -/
def Genuine (sha256 : String → String) (members : List TrustCall) (token : String) (found : Option TokenFile) : Prop :=
  ∀ file, found = some file → ∃ record, MintedAs sha256 members token record ∧ file.content = record.text

/-- What a call knows: the file it has claimed. -/
structure Trusting (sha256 : String → String) (members : List TrustCall) (files : Store) (call : Call) : Prop where
  state : CallState call
  minted : ∀ claimedPath token, call.claimedPath = some claimedPath → call.token = some token →
    (∃ record, MintedAs sha256 members token record) ∧ Genuine sha256 members token (files claimedPath)

structure Agreed (sha256 : String → String) (s : Parties Store TrustCall) : Prop where
  tokens : ∀ name, isTokenPattern name = true → Genuine sha256 s.members name (s.shared name)
  mints : ∀ mint, .minting mint ∈ s.members → MintState sha256 mint
  calls : ∀ call, .validating call ∈ s.members → Trusting sha256 s.members s.shared call

section Agreed

variable {members members' : List TrustCall} {files files' : Store} {call call' : Call} {token : String} {record : MintedRecord}

theorem Genuine.mono {found : Option TokenFile} (h : Genuine sha256 members token found)
    (hmono : ∀ token record, MintedAs sha256 members token record → MintedAs sha256 members' token record) :
    Genuine sha256 members' token found := by
  intro file hfile
  obtain ⟨record, hminted, hcontent⟩ := h file hfile
  exact ⟨record, hmono _ _ hminted, hcontent⟩

theorem Genuine.none : Genuine sha256 members token none := fun _ hfile => by cases hfile

/-- The mints that have returned stay when another party moves. -/
theorem MintedAs.set {i : Nat} {party party' : TrustCall} (hget : members[i]? = some party)
    (hopen : ∀ mint, party = .minting mint → ∀ token, mint.stage ≠ .returned token) (h : MintedAs sha256 members token record) :
    MintedAs sha256 (members.set i party') token record := by
  obtain ⟨mint, hmem, hstage, hrecorded⟩ := h
  obtain ⟨j, hj⟩ := List.mem_iff_getElem?.mp hmem
  have hij : i ≠ j := by
    intro heq
    subst heq
    rw [hget] at hj
    exact hopen mint (Option.some.inj hj) token hstage
  exact ⟨mint, List.mem_iff_getElem?.mpr ⟨j, by rw [List.getElem?_set_ne hij, hj]⟩, hstage, hrecorded⟩

/-- Names under which calls claim tell the tokens. -/
theorem claimedName_token {a b : String} {pid pid' : Nat} {random random' : String} (ha : isTokenPattern a = true) (hb : isTokenPattern b = true)
    (h : claimedName a pid random = claimedName b pid' random') : a = b := by
  have hlength : ∀ token, isTokenPattern token = true → token.toList.length = 64 := by
    intro token htoken
    unfold isTokenPattern isLowerHex at htoken
    rw [Bool.and_eq_true] at htoken
    simpa using htoken.1
  have hlists := congrArg String.toList h
  unfold claimedName at hlists
  simp only [String.toList_append, List.append_assoc] at hlists
  exact String.toList_inj.mp (List.append_inj hlists ((hlength a ha).trans (hlength b hb).symm)).1

/-- A claimed path of a call. -/
theorem Trusting.named (h : Trusting sha256 members files call) {claimedPath : String} (hpath : call.claimedPath = some claimedPath) :
    ∃ token random, call.token = some token ∧ isTokenPattern token = true ∧ claimedPath = claimedName token call.process.pid random := by
  have hclaimed : Claimed call claimedPath := by
    have hstate := h.state
    unfold CallState at hstate
    split at hstate
    · rw [hstate] at hpath
      cases hpath
    · rw [hstate.path] at hpath
      cases hpath
    · rw [hstate.path] at hpath
      cases hpath
    all_goals first
      | exact hstate.1 claimedPath hpath
      | cases hstate.path.symm.trans hpath
        exact hstate
  obtain ⟨token, htoken, hpattern, random, hname⟩ := hclaimed.named
  exact ⟨token, random, htoken, hpattern, hname⟩

theorem advance_process {answer : Answer} (h : advance integerOf files call answer = some (files', call')) : call'.process = call.process := by
  unfold advance at h
  grind

theorem put_other {name other : String} (file : Option TokenFile) (h : other ≠ name) : files.put name file other = files other := if_neg h

theorem put_none_genuine {name other : String} (h : Genuine sha256 members token (files other)) :
    Genuine sha256 members token (files.put name none other) := by
  by_cases heq : other = name
  · rw [show files.put name none other = none from if_pos heq]
    exact .none
  · rw [put_other none heq]
    exact h

variable {s : Parties Store TrustCall} {i : Nat}

/-- A mint writes where no token was, under a name that no claim gives. -/
theorem Agreed.minting {mint mint' : Mint} {answer : MintAnswer} (h : Agreed sha256 s) (hget : s.members[i]? = some (.minting mint))
    (hmove : mintTurn sha256 s.shared mint answer = some (files', mint')) : Agreed sha256 ⟨files', s.members.set i (.minting mint')⟩ := by
  obtain ⟨hstate', -, hopen, hminting⟩ := mintTurn_keeps (h.mints mint (List.mem_of_getElem? hget)) hmove
  have hmono : ∀ token record, MintedAs sha256 s.members token record → MintedAs sha256 (s.members.set i (.minting mint')) token record :=
    fun _ _ => MintedAs.set hget fun _ heq => by
      cases heq
      exact hopen
  have hmem : TrustCall.minting mint' ∈ s.members.set i (.minting mint') :=
    List.mem_iff_getElem?.mpr ⟨i, List.getElem?_set_self (List.getElem?_eq_some_iff.mp hget).1⟩
  have hclaims : ∀ name, isTokenPattern name = false → files' name = s.shared name := by
    intro name hname
    cases hminting with
    | still hfiles _ => rw [hfiles]
    | written token record hpattern _ _ hfiles _ _ =>
      rw [hfiles]
      refine put_other _ fun heq => ?_
      rw [heq, hpattern] at hname
      cases hname
  refine ⟨fun name hpattern => ?_, fun other hother => ?_, fun call hcall => ?_⟩
  · show Genuine sha256 (s.members.set i (.minting mint')) name (files' name)
    cases hminting with
    | still hfiles _ =>
      rw [hfiles]
      exact (h.tokens name hpattern).mono hmono
    | written token record _ _ _ hfiles hstage hrecord =>
      rw [hfiles]
      by_cases heq : name = token
      · subst heq
        unfold MintState at hstate'
        rw [hstage] at hstate'
        obtain ⟨-, record', hrecorded⟩ := hstate'
        cases hrecorded.1.symm.trans hrecord
        rw [show s.shared.put name (some (mintedFile mint.minter record)) name = some (mintedFile mint.minter record) from if_pos rfl]
        intro file hfile
        cases hfile
        exact ⟨record, ⟨mint', hmem, hstage, hrecorded⟩, rfl⟩
      · rw [put_other _ heq]
        exact (h.tokens name hpattern).mono hmono
  · rcases List.mem_or_eq_of_mem_set hother with hold | heq
    · exact h.mints other hold
    · cases heq
      exact hstate'
  · rcases List.mem_or_eq_of_mem_set hcall with hold | heq
    · have htrusting := h.calls call hold
      refine ⟨htrusting.state, fun claimedPath token hpath htoken => ?_⟩
      obtain ⟨⟨record, hminted⟩, hgenuine⟩ := htrusting.minted claimedPath token hpath htoken
      obtain ⟨name, random, -, -, hname⟩ := htrusting.named hpath
      refine ⟨⟨record, hmono _ _ hminted⟩, ?_⟩
      show Genuine sha256 _ token (files' claimedPath)
      rw [hclaims claimedPath (by rw [hname]; exact claimedName_not_token _ _ _)]
      exact hgenuine.mono hmono
    · cases heq

/-- A validation moves a token's file, or removes one. -/
theorem Agreed.validating {call call' : Call} {answer : Answer} (h : Agreed sha256 s) (hget : s.members[i]? = some (.validating call))
    (hmove : advance integerOf s.shared call answer = some (files', call')) :
    Agreed sha256 ⟨files', s.members.set i (.validating call')⟩ := by
  have hown := h.calls call (List.mem_of_getElem? hget)
  obtain ⟨hstate', heffect⟩ := advance_keeps hown.state hmove
  have htoken' := (advance_further hmove).1.token
  have hmono : ∀ token record, MintedAs sha256 s.members token record → MintedAs sha256 (s.members.set i (.validating call')) token record :=
    fun _ _ => MintedAs.set hget fun _ heq => by cases heq
  -- a claimed file is its token's, wherever a call looks
  have hgenuine : ∀ claimedPath token pid random, isTokenPattern token = true → claimedPath = claimedName token pid random →
      Genuine sha256 s.members token (s.shared claimedPath) → Genuine sha256 s.members token (files' claimedPath) := by
    intro claimedPath token pid random hpattern hname hold
    cases heffect with
    | still hfiles _ =>
      rw [hfiles]
      exact hold
    | removed _ hfiles _ =>
      rw [hfiles]
      exact put_none_genuine hold
    | claimed source file target _ hsource hfile hfiles hclaimed =>
      obtain ⟨name, hnamed, hpattern', random', htarget⟩ := hclaimed.named
      cases (htoken'.trans hsource).symm.trans hnamed
      rw [hfiles]
      by_cases heq : claimedPath = target
      · have hsame : token = source := claimedName_token hpattern hpattern' (hname.symm.trans (heq.trans htarget))
        subst hsame
        rw [show s.shared.rename token target file claimedPath = some file from if_pos heq, ← hfile]
        exact h.tokens token hpattern
      · rw [show s.shared.rename source target file claimedPath = s.shared.put source none claimedPath from if_neg heq]
        exact put_none_genuine hold
  refine ⟨fun name hpattern => ?_, fun mint hmint => ?_, fun other hother => ?_⟩
  · show Genuine sha256 (s.members.set i (.validating call')) name (files' name)
    refine Genuine.mono ?_ hmono
    cases heffect with
    | still hfiles _ =>
      rw [hfiles]
      exact h.tokens name hpattern
    | removed _ hfiles _ =>
      rw [hfiles]
      exact put_none_genuine (h.tokens name hpattern)
    | claimed source file target _ _ _ hfiles hclaimed =>
      obtain ⟨named, -, -, random, htarget⟩ := hclaimed.named
      have hne : name ≠ target := by
        intro heq
        rw [heq, htarget, claimedName_not_token] at hpattern
        cases hpattern
      rw [hfiles, show s.shared.rename source target file name = s.shared.put source none name from if_neg hne]
      exact put_none_genuine (h.tokens name hpattern)
  · rcases List.mem_or_eq_of_mem_set hmint with hold | heq
    · exact h.mints mint hold
    · cases heq
  · rcases List.mem_or_eq_of_mem_set hother with hold | heq
    · have htrusting := h.calls other hold
      refine ⟨htrusting.state, fun claimedPath token hpath htoken => ?_⟩
      obtain ⟨⟨record, hminted⟩, hfound⟩ := htrusting.minted claimedPath token hpath htoken
      obtain ⟨name, random, hnamed, hpattern, hname⟩ := htrusting.named hpath
      cases htoken.symm.trans hnamed
      exact ⟨⟨record, hmono _ _ hminted⟩, (hgenuine _ _ _ _ hpattern hname hfound).mono hmono⟩
    · cases heq
      refine ⟨hstate', fun claimedPath token hpath htoken => ?_⟩
      rw [htoken'] at htoken
      have hkept : call'.claimedPath = call.claimedPath → (∃ record, MintedAs sha256 (s.members.set i (.validating call')) token record) ∧
          Genuine sha256 (s.members.set i (.validating call')) token (files' claimedPath) := by
        intro hsame
        rw [hsame] at hpath
        obtain ⟨⟨record, hminted⟩, hfound⟩ := hown.minted claimedPath token hpath htoken
        obtain ⟨name, random, hnamed, hpattern, hname⟩ := hown.named hpath
        cases htoken.symm.trans hnamed
        exact ⟨⟨record, hmono _ _ hminted⟩, (hgenuine _ _ _ _ hpattern hname hfound).mono hmono⟩
      cases heffect with
      | still _ hsame => exact hkept hsame
      | removed _ _ hsame => exact hkept hsame
      | claimed source file target _ hsource hfile hfiles hclaimed =>
        obtain ⟨name, hnamed, hpattern, random, htarget⟩ := hclaimed.named
        cases hsource.symm.trans htoken
        cases (htoken'.trans hsource).symm.trans hnamed
        cases hclaimed.path.symm.trans hpath
        obtain ⟨record, hminted, hcontent⟩ := h.tokens token hpattern file hfile
        refine ⟨⟨record, hmono _ _ hminted⟩, fun found hfound => ?_⟩
        have hfound : files' claimedPath = some found := hfound
        rw [hfiles, show s.shared.rename token claimedPath file claimedPath = some file from if_pos rfl] at hfound
        cases hfound
        exact ⟨record, hmono _ _ hminted, hcontent⟩

end Agreed

/-! ## No token twice -/

/-- Where no name is drawn twice, a token is claimed once and stays away. -/
structure Apart (names : List String) (s : Parties Store TrustCall) : Prop where
  taken : ∀ mint token, .minting mint ∈ s.members → mint.stage = .returned token → token ∈ names
  absent : ∀ call token, .validating call ∈ s.members → call.claimedPath.isSome = true → call.token = some token → s.shared token = none
  once : ∀ (i j : Nat) (a b : Call), i ≠ j → s.members[i]? = some (.validating a) → s.members[j]? = some (.validating b) →
    a.claimedPath.isSome = true → b.claimedPath.isSome = true → a.token ≠ b.token

section Apart

variable {names : List String} {s : Parties Store TrustCall} {files' : Store} {i : Nat}

theorem Apart.minting {mint mint' : Mint} {answer : MintAnswer} (h : Apart names s) (hagreed : Agreed sha256 s)
    (hget : s.members[i]? = some (.minting mint)) (hmove : mintTurn sha256 s.shared mint answer = some (files', mint'))
    (hnew : ∀ token, drawn (i, .mint answer) = some token → token ∉ names) :
    Apart (names ++ (drawn (i, .mint answer)).toList) ⟨files', s.members.set i (.minting mint')⟩ := by
  obtain ⟨-, -, -, hminting⟩ := mintTurn_keeps (hagreed.mints mint (List.mem_of_getElem? hget)) hmove
  refine ⟨fun other token hother hstage => ?_, fun call token hcall hclaimed htoken => ?_, fun j k a b hjk ha hb => ?_⟩
  · rcases List.mem_or_eq_of_mem_set hother with hold | heq
    · exact List.mem_append_left _ (h.taken other token hold hstage)
    · cases heq
      cases hminting with
      | still _ hopen => exact absurd hstage (hopen token)
      | written name record _ _ hanswer _ hreturned _ =>
        cases hreturned.symm.trans hstage
        rw [hanswer]
        exact List.mem_append_right _ (List.mem_singleton.mpr rfl)
  · rcases List.mem_or_eq_of_mem_set hcall with hold | heq
    · have habsent := h.absent call token hold hclaimed htoken
      show files' token = none
      cases hminting with
      | still hfiles _ => rw [hfiles, habsent]
      | written name record _ _ hanswer hfiles _ _ =>
        rw [hfiles]
        by_cases heq : token = name
        · -- the token's mint had drawn its name already
          subst heq
          obtain ⟨claimedPath, hpath⟩ := Option.isSome_iff_exists.mp hclaimed
          obtain ⟨⟨record, other, hother, hstage, -⟩, -⟩ := (hagreed.calls call hold).minted claimedPath token hpath htoken
          exact absurd (h.taken other token hother hstage) (hnew token (by rw [hanswer]; rfl))
        · rw [put_other _ heq, habsent]
    · cases heq
  · rcases set_getElem? ha with ⟨-, heq⟩ | ⟨-, ha⟩
    · cases heq
    rcases set_getElem? hb with ⟨-, heq⟩ | ⟨-, hb⟩
    · cases heq
    exact h.once j k a b hjk ha hb

theorem Apart.validating {call call' : Call} {answer : Answer} (h : Apart names s) (hagreed : Agreed sha256 s)
    (hget : s.members[i]? = some (.validating call)) (hmove : advance integerOf s.shared call answer = some (files', call')) :
    Apart names ⟨files', s.members.set i (.validating call')⟩ := by
  have hown := hagreed.calls call (List.mem_of_getElem? hget)
  have hself := List.mem_of_getElem? hget
  obtain ⟨-, heffect⟩ := advance_keeps hown.state hmove
  have htoken' := (advance_further hmove).1.token
  -- a call that is new to its token found it there
  have hfirst : call'.claimedPath = call.claimedPath ∨ ∃ token file, call.token = some token ∧ s.shared token = some file ∧
      isTokenPattern token = true ∧ files' token = none := by
    cases heffect with
    | still _ hsame => exact .inl hsame
    | removed _ _ hsame => exact .inl hsame
    | claimed token file target _ htoken hfile hfiles hclaimed =>
      obtain ⟨name, hname, hpattern, random, htarget⟩ := hclaimed.named
      cases (htoken'.trans htoken).symm.trans hname
      refine .inr ⟨token, file, htoken, hfile, hpattern, ?_⟩
      have hne : token ≠ target := by
        intro heq
        rw [heq, htarget, claimedName_not_token] at hpattern
        cases hpattern
      rw [hfiles, show s.shared.rename token target file token = s.shared.put token none token from if_neg hne]
      exact if_pos rfl
  have hkept : ∀ token, isTokenPattern token = true → s.shared token = none → files' token = none :=
    fun token hpattern habsent => heffect.absent hpattern habsent
  have hpatterned : ∀ other token, .validating other ∈ s.members → other.claimedPath.isSome = true → other.token = some token →
      isTokenPattern token = true := by
    intro other token hother hclaimed htoken
    obtain ⟨claimedPath, hpath⟩ := Option.isSome_iff_exists.mp hclaimed
    obtain ⟨name, random, hname, hpattern, -⟩ := (hagreed.calls other hother).named hpath
    cases htoken.symm.trans hname
    exact hpattern
  -- no other call has claimed what this call claims
  have hapart : ∀ (j : Nat) (other : Call), i ≠ j → s.members[j]? = some (.validating other) → call'.claimedPath.isSome = true →
      other.claimedPath.isSome = true → call'.token ≠ other.token := by
    intro j other hij hother hclaimed hclaimed'
    rw [htoken']
    rcases hfirst with hsame | ⟨token, file, htoken, hfile, -⟩
    · rw [hsame] at hclaimed
      exact h.once i j call other hij hget hother hclaimed hclaimed'
    · intro hsame
      rw [h.absent other token (List.mem_of_getElem? hother) hclaimed' (hsame.symm.trans htoken)] at hfile
      cases hfile
  refine ⟨fun mint token hmint hstage => ?_, fun other token hother hclaimed htoken => ?_, fun j k a b hjk ha hb hclaimed hclaimed' => ?_⟩
  · rcases List.mem_or_eq_of_mem_set hmint with hold | heq
    · exact h.taken mint token hold hstage
    · cases heq
  · show files' token = none
    rcases List.mem_or_eq_of_mem_set hother with hold | heq
    · exact hkept token (hpatterned other token hold hclaimed htoken) (h.absent other token hold hclaimed htoken)
    · cases heq
      rw [htoken'] at htoken
      rcases hfirst with hsame | ⟨name, file, hname, -, -, habsent⟩
      · rw [hsame] at hclaimed
        exact hkept token (hpatterned call token hself hclaimed htoken) (h.absent call token hself hclaimed htoken)
      · cases htoken.symm.trans hname
        exact habsent
  · rcases set_getElem? ha with ⟨hj, heq⟩ | ⟨hj, ha⟩
    · cases heq
      rcases set_getElem? hb with ⟨hk, -⟩ | ⟨hk, hb⟩
      · exact absurd (hj.symm.trans hk) hjk
      · exact hapart k b hk hb hclaimed hclaimed'
    · rcases set_getElem? hb with ⟨hk, heq⟩ | ⟨-, hb⟩
      · cases heq
        exact (hapart j a hj ha hclaimed' hclaimed).symm
      · exact h.once j k a b hjk ha hb hclaimed hclaimed'

end Apart

/-! ## Every run -/

theorem trusting_agreed {answers : List (Nat × TrustAnswer)} {s : Parties Store TrustCall} (h : Run (trusting sha256 integerOf) answers s) :
    Agreed sha256 s := by
  refine Run.invariant (I := Agreed sha256) (fun s hinit => ?_) (fun t label u ht hstep => ?_) h
  · obtain ⟨hfresh, hempty⟩ := hinit
    refine ⟨fun name hpattern => ?_, fun mint hmint => ?_, fun call hcall => ?_⟩
    · rw [hempty name hpattern]
      exact .none
    · have hmint : mint.Fresh := hfresh _ hmint
      unfold MintState
      rw [hmint.stage]
      trivial
    · have hcall : call.Fresh := hfresh _ hcall
      have hstate := (hcall.sound s.shared).state
      refine ⟨hstate, fun claimedPath token hpath => ?_⟩
      rw [hcall.claimedPath] at hpath
      cases hpath
  · obtain ⟨party, files', party', hget, hmove, rfl⟩ := hstep
    unfold trustTurn at hmove
    split at hmove
    · obtain ⟨moved, hmoved, heq⟩ := Option.map_eq_some_iff.mp hmove
      cases heq
      exact ht.minting hget hmoved
    · obtain ⟨moved, hmoved, heq⟩ := Option.map_eq_some_iff.mp hmove
      cases heq
      exact ht.validating hget hmoved
    · cases hmove

theorem trusting_apart {answers : List (Nat × TrustAnswer)} {s : Parties Store TrustCall} (h : Run (trusting sha256 integerOf) answers s)
    (hdrawn : (answers.filterMap drawn).Nodup) : Apart (answers.filterMap drawn) s := by
  revert hdrawn
  refine Run.traceInvariant (P := fun answers s => (answers.filterMap drawn).Nodup → Apart (answers.filterMap drawn) s)
    (fun s hinit _ => ?_) (fun answers t label u hrun ht hstep hdrawn => ?_) h
  · obtain ⟨hfresh, -⟩ := hinit
    have hcalls : ∀ call, TrustCall.validating call ∈ s.members → call.claimedPath = none := fun call hcall => (hfresh _ hcall).claimedPath
    refine ⟨fun mint token hmint hstage => ?_, fun call token hcall hclaimed => ?_, fun i j a b _ ha _ hclaimed => ?_⟩
    · rw [(hfresh _ hmint).stage] at hstage
      cases hstage
    · rw [hcalls call hcall] at hclaimed
      cases hclaimed
    · rw [hcalls a (List.mem_of_getElem? ha)] at hclaimed
      cases hclaimed
  · have hnames : (answers ++ [label]).filterMap drawn = answers.filterMap drawn ++ (drawn label).toList := by
      rw [List.filterMap_append]
      cases hlabel : drawn label <;> simp [hlabel]
    rw [hnames] at hdrawn ⊢
    have hbefore := ht (List.nodup_append.mp hdrawn).1
    have hnew : ∀ token, drawn label = some token → token ∉ answers.filterMap drawn := by
      intro token htoken hmem
      exact (List.nodup_append.mp hdrawn).2.2 token hmem token (by rw [htoken]; exact List.mem_singleton.mpr rfl) rfl
    obtain ⟨party, files', party', hget, hmove, rfl⟩ := hstep
    obtain ⟨i, answer⟩ := label
    cases party with
    | minting mint =>
      cases answer with
      | mint answer =>
        obtain ⟨moved, hmoved, heq⟩ := Option.map_eq_some_iff.mp hmove
        cases heq
        exact hbefore.minting (trusting_agreed hrun) hget hmoved hnew
      | validation answer => cases hmove
    | validating call =>
      cases answer with
      | mint answer => cases hmove
      | validation answer =>
        obtain ⟨moved, hmoved, heq⟩ := Option.map_eq_some_iff.mp hmove
        cases heq
        rw [show (drawn (i, .validation answer)).toList = ([] : List String) from rfl, List.append_nil]
        exact hbefore.validating (trusting_agreed hrun) hget hmoved

/-! ## What the parties are told -/

def TrustAnswer.asMint : TrustAnswer → Option MintAnswer
  | .mint answer => some answer
  | .validation _ => none

def TrustAnswer.asValidation : TrustAnswer → Option Answer
  | .mint _ => none
  | .validation answer => some answer

/-- The answers a mint is given. -/
def mintHeard (i : Nat) (answers : List (Nat × TrustAnswer)) : List MintAnswer := (heard i answers).filterMap TrustAnswer.asMint

/-- The answers a validation is given. -/
def validationHeard (i : Nat) (answers : List (Nat × TrustAnswer)) : List Answer := (heard i answers).filterMap TrustAnswer.asValidation

/-- The answers of a mint up to the file it writes: its stack, the store, the clock, and the names that were taken. -/
def recording (stack : String) (found : StoreReading) (createdAt : Nat) (taken : List String) : List MintAnswer :=
  [.called (some stack), .store found, .clock createdAt] ++ taken.map fun name => .wrote name false

/-- What a mint was told before. -/
def MintHeard (sha256 : String → String) (told : List MintAnswer) (mint : Mint) : Prop := match mint.stage with
  | .beginning => told = []
  | .ensuring stack => told = [.called (some stack)]
  | .recording stack => ∃ found, told = [.called (some stack), .store found]
  | .writing record _ => mint.record = some record ∧ ∃ stack found createdAt taken, told = recording stack found createdAt taken ∧
      createTrustTokenRecord sha256 mint.minter stack createdAt = .ok record
  | .returned token => ∃ record stack found createdAt taken, mint.record = some record ∧
      told = recording stack found createdAt (taken ++ [token]) ∧ createTrustTokenRecord sha256 mint.minter stack createdAt = .ok record
  | .thrown _ => True

theorem mintTurn_heard {files files' : Store} {mint mint' : Mint} {answer : MintAnswer} {told : List MintAnswer}
    (hheard : MintHeard sha256 told mint) (h : mintTurn sha256 files mint answer = some (files', mint')) :
    MintHeard sha256 (told ++ [answer]) mint' := by
  unfold MintHeard at hheard
  unfold mintTurn at h
  split at h
  · rename_i hstage
    rw [hstage] at hheard
    have hheard : told = [] := hheard
    split at h
    · cases h
      trivial
    · split at h <;> cases h
      · trivial
      · rw [hheard]
        rfl
  · rename_i stack found hstage
    rw [hstage] at hheard
    have hheard : told = [.called (some stack)] := hheard
    cases h
    unfold MintHeard
    cases storeError mint.minter found with
    | some error => trivial
    | none =>
      rw [hheard]
      exact ⟨found, rfl⟩
  · rename_i stack now hstage
    rw [hstage] at hheard
    obtain ⟨found, rfl⟩ := hheard
    cases hrecord : createTrustTokenRecord sha256 mint.minter stack now with
    | error error =>
      rw [hrecord] at h
      cases h
      trivial
    | ok record =>
      rw [hrecord] at h
      cases h
      exact ⟨rfl, stack, found, now, [], rfl, hrecord⟩
  · rename_i record attempt token failed hstage
    rw [hstage] at hheard
    obtain ⟨hmade, stack, found, createdAt, taken, rfl, hrecord⟩ := hheard
    have hnext : recording stack found createdAt taken ++ [.wrote token false] = recording stack found createdAt (taken ++ [token]) := by
      unfold recording
      rw [List.map_append, List.append_assoc]
      rfl
    split at h
    · cases h
    split at h
    · cases h
      trivial
    rename_i hfailed
    have hok : failed = false := by simpa using hfailed
    rw [hok, hnext]
    split at h
    · cases h
      by_cases hmore : attempt + 1 < 3
      · rw [if_pos hmore]
        exact ⟨hmade, stack, found, createdAt, taken ++ [token], rfl, hrecord⟩
      · rw [if_neg hmore]
        trivial
    · cases h
      exact ⟨record, stack, found, createdAt, taken, hmade, rfl, hrecord⟩
  · cases h

def PartyHeard (sha256 : String → String) (integerOf : List Char → Option Int) (told : List TrustAnswer) : TrustCall → Prop
  | .minting mint => MintHeard sha256 (told.filterMap TrustAnswer.asMint) mint
  | .validating call => Heard integerOf (told.filterMap TrustAnswer.asValidation) call

/-- The parties take turns, whatever the store holds at first. -/
theorem trusting_interleaved {answers : List (Nat × TrustAnswer)} {s : Parties Store TrustCall} (h : Run (trusting sha256 integerOf) answers s) :
    Run (interleaving TrustCall.Fresh fun files party answer files' party' => trustTurn sha256 integerOf files party answer = some (files', party'))
      answers s := by
  obtain ⟨start, hstart, hsteps⟩ := h
  refine ⟨start, hstart.1, ?_⟩
  induction hsteps with
  | nil => exact .nil
  | snoc _ hstep ih => exact .snoc ih hstep

theorem trusting_heard {answers : List (Nat × TrustAnswer)} {s : Parties Store TrustCall} (h : Run (trusting sha256 integerOf) answers s) :
    ∀ (i : Nat) (party : TrustCall), s.members[i]? = some party → PartyHeard sha256 integerOf (heard i answers) party := by
  refine each_heard (fun party hfresh => ?_) (fun {told files party answer files' party'} hheard hmove => ?_) (trusting_interleaved h)
  · cases party with
    | minting mint =>
      have hfresh : mint.Fresh := hfresh
      show MintHeard sha256 [] mint
      unfold MintHeard
      rw [hfresh.stage]
    | validating call =>
      have hfresh : call.Fresh := hfresh
      show Heard integerOf [] call
      unfold Heard
      rw [hfresh.stage]
  · unfold trustTurn at hmove
    split at hmove
    · obtain ⟨moved, hmoved, heq⟩ := Option.map_eq_some_iff.mp hmove
      cases heq
      show MintHeard sha256 ((told ++ _).filterMap TrustAnswer.asMint) moved.2
      rw [List.filterMap_append]
      exact mintTurn_heard hheard hmoved
    · obtain ⟨moved, hmoved, heq⟩ := Option.map_eq_some_iff.mp hmove
      cases heq
      show Heard integerOf ((told ++ _).filterMap TrustAnswer.asValidation) moved.2
      rw [List.filterMap_append]
      exact advance_heard hheard hmoved
    · cases hmove

/-- What is read is what the file holds. -/
theorem advance_read {files : Store} {call : Call} {path content : String} {moved : Store × Call}
    (h : advance integerOf files call (.read path (some content)) = some moved) :
    call.stage = .reading path ∧ ∃ file, files path = some file ∧ file.content = content := by
  unfold advance at h
  cases hstage : call.stage with
  | reading claimedPath =>
    rw [hstage] at h
    dsimp only at h
    split at h
    · cases h
    rename_i hasked
    obtain ⟨hpath, hcontent⟩ := not_or.mp hasked
    obtain ⟨file, hfile, hsame⟩ := Option.map_eq_some_iff.mp (not_not.mp fun hne => hcontent ⟨rfl, hne⟩).symm
    exact ⟨by rw [not_not.mp hpath], file, hfile, hsame⟩
  | _ =>
    rw [hstage] at h
    cases h

/-- What a call reads is the record of a mint that has returned its token. -/
theorem reads_minted {answers : List (Nat × TrustAnswer)} {s : Parties Store TrustCall} (h : Run (trusting sha256 integerOf) answers s) :
    ∀ (i : Nat) (call : Call) (token path content : String), s.members[i]? = some (.validating call) → call.token = some token →
      .read path (some content) ∈ validationHeard i answers → ∃ record, MintedAs sha256 s.members token record ∧ content = record.text := by
  refine Run.traceInvariant (P := fun answers s => ∀ (i : Nat) (call : Call) (token path content : String),
    s.members[i]? = some (.validating call) → call.token = some token → .read path (some content) ∈ validationHeard i answers →
      ∃ record, MintedAs sha256 s.members token record ∧ content = record.text)
    (fun s _ i call token path content _ _ hread => by cases hread) (fun answers s label s' hrun hs hstep => ?_) h
  obtain ⟨party, files', party', hget, hmove, rfl⟩ := hstep
  intro i call token path content hcall htoken hread
  -- a mint that has returned moves no more
  have hopen : ∀ mint, party = .minting mint → ∀ token, mint.stage ≠ .returned token := by
    intro mint hmint
    subst hmint
    cases hanswer : label.2 with
    | mint answer =>
      rw [hanswer] at hmove
      obtain ⟨moved, hmoved, -⟩ := Option.map_eq_some_iff.mp hmove
      exact (mintTurn_keeps ((trusting_agreed hrun).mints mint (List.mem_of_getElem? hget)) hmoved).2.2.1
    | validation answer =>
      rw [hanswer] at hmove
      cases hmove
  have hkept : ∀ record, MintedAs sha256 s.members token record ∧ content = record.text →
      ∃ record, MintedAs sha256 (s.members.set label.1 party') token record ∧ content = record.text :=
    fun record hrecord => ⟨record, hrecord.1.set hget hopen, hrecord.2⟩
  unfold validationHeard at hread
  rw [heard_snoc] at hread
  rcases set_getElem? hcall with ⟨hi, rfl⟩ | ⟨hi, hcall⟩
  · rw [if_pos hi, List.filterMap_append, List.mem_append] at hread
    subst hi
    cases party with
    | minting mint =>
      cases hanswer : label.2 <;> rw [hanswer] at hmove
      · obtain ⟨moved, -, heq⟩ := Option.map_eq_some_iff.mp hmove
        cases heq
      · cases hmove
    | validating before =>
      cases hanswer : label.2 with
      | mint answer =>
        rw [hanswer] at hmove
        cases hmove
      | validation answer =>
        rw [hanswer] at hmove hread
        obtain ⟨moved, hmoved, heq⟩ := Option.map_eq_some_iff.mp hmove
        cases heq
        rw [(advance_further hmoved).1.token] at htoken
        rcases hread with hearlier | hnow
        · obtain ⟨record, hrecord⟩ := hs label.1 before token path content hget htoken hearlier
          exact hkept record hrecord
        · cases List.mem_singleton.mp hnow
          obtain ⟨hstage, file, hfile, rfl⟩ := advance_read hmoved
          have htrusting := (trusting_agreed hrun).calls before (List.mem_of_getElem? hget)
          have hclaimed := htrusting.state
          unfold CallState at hclaimed
          rw [hstage] at hclaimed
          obtain ⟨record, hrecord⟩ := (htrusting.minted path token hclaimed.path htoken).2 file hfile
          exact hkept record hrecord
  · rw [if_neg hi] at hread
    obtain ⟨record, hrecord⟩ := hs i call token path content hcall htoken hread
    exact hkept record hrecord

/-! ## What an acceptance tells -/

/-- A mint, with the answers it was given, that stands behind what a call accepts for the answers it was given. -/
structure Vouches (sha256 : String → String) (mint : Mint) (minted : List MintAnswer) (call : Call) (told : List Answer)
    (token stack : String) (createdAt : Nat) (now : Int) : Prop where
  presented : call.token = some token
  /-- The mint returned the token, for a helper of the running module that showed its stack. -/
  returned : mint.stage = .returned token
  minted : ∃ found taken, minted = recording stack found createdAt (taken ++ [token])
  helper : isAuthorizedTrustTokenIssuerStack mint.minter.env (some stack) mint.minter.cwd = true
  runtime : trustModuleCanMintFrom mint.minter.env mint.minter.trustPackageDirectory mint.minter.cwd = true
  /-- The call read what was minted, half a minute ago at most, and its process is the mint's or below it. -/
  told : Acceptance call.process token (⟨createdAt, createdAt + tokenTtlMs.toNat, mint.minter.pid, mint.minter.ppid, mint.minter.cwd, sha256 stack⟩ :
    MintedRecord).text now mint.minter.pid mint.minter.ppid told
  timely : (createdAt : Int) ≤ now + 1000 ∧ now ≤ createdAt + tokenTtlMs
  directory : isAuthorizedTrustTokenIssuerWorkingDirectory call.process.env mint.minter.cwd call.process.env.homedir = true

theorem Acceptance.reads {process : Process} {token content : String} {now issuerPid issuerPpid : Int} {told : List Answer}
    (h : Acceptance process token content now issuerPid issuerPpid told) : ∃ path, .read path (some content) ∈ told := by
  obtain ⟨random, found, climbed, last, refused, rfl, -⟩ := h
  exact ⟨claimedName token process.pid random, List.mem_append_left _ (by simp [opening])⟩

/-- What is accepted was minted: by a process the call stands below, for a helper's stack, in the
    directory of the running module, half a minute ago at most. No token is accepted twice, where no
    name is drawn twice. -/
theorem accepted_was_minted (sha256 : String → String) (integerOf : List Char → Option Int) (hreads : ReadsNumerals integerOf)
    {answers : List (Nat × TrustAnswer)} {s : Parties Store TrustCall} (h : Run (trusting sha256 integerOf) answers s) :
    (∀ (i : Nat) (call : Call), s.members[i]? = some (.validating call) → call.stage = .returned true →
      ∃ (j : Nat) (mint : Mint) (token stack : String) (createdAt : Nat) (now : Int), s.members[j]? = some (.minting mint) ∧
        Vouches sha256 mint (mintHeard j answers) call (validationHeard i answers) token stack createdAt now) ∧
      ((answers.filterMap drawn).Nodup → ∀ (i j : Nat) (a b : Call), s.members[i]? = some (.validating a) →
        s.members[j]? = some (.validating b) → a.stage = .returned true → b.stage = .returned true → a.token = b.token → i = j) := by
  have hagreed := trusting_agreed h
  have hclaimed : ∀ call, .validating call ∈ s.members → call.stage = .returned true → call.claimedPath.isSome = true := by
    intro call hcall hstage
    have hstate := (hagreed.calls call hcall).state
    unfold CallState at hstate
    rw [hstage] at hstate
    exact hstate.2 rfl
  refine ⟨fun i call hcall hstage => ?_, fun hdrawn i j a b ha hb hastage hbstage htoken => ?_⟩
  · have hheard : Heard integerOf (validationHeard i answers) call := trusting_heard h i _ hcall
    unfold Heard at hheard
    rw [hstage] at hheard
    obtain ⟨before, refused, hbefore, hverified⟩ := hheard rfl
    obtain ⟨token, content, candidate, now, current, htoken, hacceptance, hcandidate, hcurrent⟩ := hverified.accepted refused
    rw [← hbefore] at hacceptance
    obtain ⟨path, hread⟩ := hacceptance.reads
    obtain ⟨record, ⟨mint, hmint, hreturned, hmade, -⟩, rfl⟩ := reads_minted h i call token path content hcall htoken hread
    obtain ⟨j, hj⟩ := List.mem_iff_getElem?.mp hmint
    have hminting : MintHeard sha256 (mintHeard j answers) mint := trusting_heard h j _ hj
    unfold MintHeard at hminting
    rw [hreturned] at hminting
    obtain ⟨record', stack, found, createdAt, taken, hmade', hminted, hcreated⟩ := hminting
    cases hmade.symm.trans hmade'
    obtain ⟨hstack, hruntime, rfl⟩ := createTrustTokenRecord_eq_ok hcreated
    rw [MintedRecord.readCandidate_text hreads] at hcandidate
    split at hcandidate
    · rename_i hdirectory
      cases hcandidate
      have hlive := currentRecord_eq_some hcurrent
      obtain ⟨hcreatedAt, hexpiresAt, hpid, hppid⟩ := currentRecord_fields hcurrent
      have hcreatedAt : (createdAt : Int) = current.createdAt := Option.some.inj hcreatedAt
      have hpid : (mint.minter.pid : Int) = current.issuerPid := Option.some.inj hpid
      have hppid : (mint.minter.ppid : Int) = current.issuerPpid := Option.some.inj hppid
      rw [← hpid, ← hppid] at hacceptance
      refine ⟨j, mint, token, stack, createdAt, now, hj, htoken, hreturned, ⟨found, taken, hminted⟩, hstack, hruntime, hacceptance, ?_, hdirectory⟩
      rw [hcreatedAt]
      exact ⟨hlive.created, hlive.lifetime ▸ hlive.unexpired⟩
    · cases hcandidate
  · by_contra hij
    exact (trusting_apart h hdrawn).once i j a b hij ha hb (hclaimed a (List.mem_of_getElem? ha) hastage)
      (hclaimed b (List.mem_of_getElem? hb) hbstage) htoken

/-! ## A run

A helper of process 10 mints; its child 12 validates. -/

def sampleRoot : TrustEnvironment := ⟨id, fun _ => none, "/h", some "/r"⟩

def sampleMinter : Minter := ⟨⟨10, some 500, sampleRoot⟩, 9, "/r", 500, "/r/packages/trust", "/tmp/git-commits-push-trust-tokens"⟩

def sampleStack : String := "at /r/src/utils/git-utils.ts:1:1"

def sampleValidation : Call := ⟨some sampleToken, ⟨12, some 500, sampleRoot⟩, .beginning, none, none⟩

def sampleTrusting : Parties Store TrustCall := ⟨fun _ => none, [.minting ⟨sampleMinter, .beginning, none⟩, .validating sampleValidation]⟩

def sampleMinted : MintedRecord := ⟨5000, 35000, 10, 9, "/r", sampleToken⟩

def sampleMintedFields : List (String × Scalar) :=
  [("issuer", .text trustedIssuer), ("createdAt", .count 5000), ("expiresAt", .count 35000), ("issuerPid", .count 10),
    ("issuerPpid", .count 9), ("issuerCwd", .text "/r"), ("issuerStackHash", .text sampleToken)]

def sampleTrustAnswers : List (Nat × TrustAnswer) :=
  [(0, .mint (.called (some sampleStack))), (0, .mint (.store sampleStore)), (1, .validation .called), (0, .mint (.clock 5000)),
    (0, .mint (.wrote sampleToken false)), (1, .validation (.store sampleStore)), (1, .validation (.renamed "00" false)),
    (1, .validation (.inspected false)), (1, .validation (.read (claimedName sampleToken 12 "00") (some sampleMinted.text))),
    (1, .validation (.clock 20000)), (1, .validation (.parent 12 10 none)), (1, .validation (.parent 10 10 (some " 9\n"))),
    (1, .validation (.removed false))]

def sampleSha256 (_ : String) : String := sampleToken

def TrustCall.result : TrustCall → Option Bool
  | .minting _ => none
  | .validating call => call.result

theorem sampleTrusting_results : ((replay (trustTurn sampleSha256 sampleIntegerOf) sampleTrusting sampleTrustAnswers).map fun s =>
    s.members.map TrustCall.result) = some [none, some true] := by
  unfold trustTurn advance
  rw [parse_known sampleIntegerOf_reads ("version", .count 1) sampleMintedFields (by decide)]
  decide +kernel

theorem replay_trusting {labels : List (Nat × TrustAnswer)} {s s' : Parties Store TrustCall}
    (h : replay (trustTurn sha256 integerOf) s labels = some s') : Steps (trusting sha256 integerOf) s labels s' := by
  have hsteps : Steps (interleaving TrustCall.Fresh fun files party answer files' party' =>
      trustTurn sha256 integerOf files party answer = some (files', party')) s labels s' := replay_steps h
  clear h
  induction hsteps with
  | nil => exact .nil
  | snoc _ hstep ih => exact .snoc ih hstep

theorem sampleTrusting_starts : (trusting sampleSha256 sampleIntegerOf).init sampleTrusting := by
  refine ⟨fun party hparty => ?_, fun _ _ => rfl⟩
  rcases List.mem_cons.mp hparty with rfl | hparty
  · exact ⟨rfl, rfl⟩
  · cases List.mem_singleton.mp hparty
    exact ⟨rfl, rfl, rfl⟩

theorem Call.stage_of_result {call : Call} {result : Bool} (h : call.result = some result) : call.stage = .returned result := by
  unfold Call.result at h
  split at h
  · rename_i found hstage
    rw [hstage, Option.some.inj h]
  · cases h

theorem accepted_was_minted_sample : ∃ (call : Call) (mint : Mint) (token stack : String) (createdAt : Nat) (now : Int),
    call.stage = .returned true ∧
      Vouches sampleSha256 mint (mintHeard 0 sampleTrustAnswers) call (validationHeard 1 sampleTrustAnswers) token stack createdAt now := by
  obtain ⟨s, hreplay, hresults⟩ := Option.map_eq_some_iff.mp sampleTrusting_results
  have hrun : Run (trusting sampleSha256 sampleIntegerOf) sampleTrustAnswers s := ⟨sampleTrusting, sampleTrusting_starts, replay_trusting hreplay⟩
  obtain ⟨hvouched, -⟩ := accepted_was_minted sampleSha256 sampleIntegerOf sampleIntegerOf_reads hrun
  have hresult : ∀ (i : Nat) (result : Option Bool), [none, some true][i]? = some result →
      ∃ party, s.members[i]? = some party ∧ party.result = result := by
    intro i result hi
    have hparty : (s.members.map TrustCall.result)[i]? = some result := by
      rw [hresults]
      exact hi
    exact Option.map_eq_some_iff.mp (List.getElem?_map ▸ hparty)
  obtain ⟨party, hparty, haccepted⟩ := hresult 1 (some true) rfl
  cases party with
  | minting mint => cases haccepted
  | validating call =>
    have hstage : call.stage = .returned true := Call.stage_of_result haccepted
    obtain ⟨j, mint, token, stack, createdAt, now, hmint, hvouches⟩ := hvouched 1 call hparty hstage
    obtain rfl : j = 0 := by
      have hlength : s.members.length = 2 := by simpa using congrArg List.length hresults
      have hj := (List.getElem?_eq_some_iff.mp hmint).1
      have hother : j ≠ 1 := by
        intro heq
        subst heq
        rw [hparty] at hmint
        cases hmint
      omega
    exact ⟨call, mint, token, stack, createdAt, now, hstage, hvouches⟩

end GitCommitsPush.Trust
