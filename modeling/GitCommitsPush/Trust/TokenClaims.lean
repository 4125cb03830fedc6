/-
  GitCommitsPush.Trust.TokenClaims — a trust token is accepted at most once.

  The rename takes the token's file away, and no name it gives is a token's: so a claimed token
  stays absent, and one call at most has claimed it.
  - `CallState`: what a call has claimed in each stage, kept by its answers (`advance_keeps`).
  - `Heard`: the answers it was given so far, in each stage (`advance_heard`).
  - `Sound`: a claimed token is absent. With `claims_apart`: two calls never claim one token.
  - `token_accepted_once`: over every interleaving, one call at most accepts a token, a call that
    starts after a claim refuses it, and one that accepts was told a current record and found the
    issuer among its ancestors. Every call returns within 72 answers (`calls_end`).
-/

import GitCommitsPush.Lib.FlatObject
import GitCommitsPush.Trust.TokenValidation
import GitCommitsPush.Trust.WholePaths

namespace GitCommitsPush.Trust

open GitCommitsPush.Installation (isLowerHex)
open GitCommitsPush.Lib.FlatObject
open GitCommitsPush.Lib.Interleaving
open GitCommitsPush.Lib.JsText
open GitCommitsPush.Lib.JsonDocument (parse)
open GitCommitsPush.Lib.JsonTree
open GitCommitsPush.Lib.Runs

/-! ## What a call is told -/

/-- The answer gives the process this parent: its own as it knows it, another's as `ps` writes it. -/
def Tells (process : Process) (pid : Int) (answer : Answer) (parent : Int) : Prop := match answer with
  | .parent asked ppid output =>
    asked = pid ∧ if pid = process.pid then parent = ppid else (output.bind fun output => parseInt (trim output.toList)) = some parent
  | _ => False

/-- From the process up: each answer gives the parent of the process reached. -/
inductive Climbs (process : Process) : List Answer → Int → Prop
  | nil : Climbs process [] process.pid
  | snoc {climbed : List Answer} {pid parent : Int} {answer : Answer} : Climbs process climbed pid → Tells process pid answer parent →
      Climbs process (climbed ++ [answer]) parent

/-- The record is of this moment: no later than a second from now, and not yet expired. -/
structure Current (record : TrustTokenRecord) (now : Int) : Prop where
  created : record.createdAt ≤ now + 1000
  unexpired : now ≤ record.expiresAt
  lifetime : record.expiresAt = record.createdAt + tokenTtlMs
  issuer : 0 < record.issuerPid

/-- The text is an object with the record's numbers. -/
def RecordIn (integerOf : List Char → Option Int) (content : String) (record : TrustTokenRecord) : Prop :=
  ∃ value, parse integerOf content = some value ∧ value.field "createdAt" = some (.number (some record.createdAt)) ∧
    value.field "expiresAt" = some (.number (some record.expiresAt)) ∧ value.field "issuerPid" = some (.number (some record.issuerPid)) ∧
    value.field "issuerPpid" = some (.number (some record.issuerPpid))

/-- The answers up to the record: the token's file is claimed under a name of the call's own, and read there. -/
def opening (process : Process) (token random : String) (found : StoreReading) (content : String) : List Answer :=
  [.called, .store found, .renamed random false, .inspected false, .read (claimedName token process.pid random) (some content)]

/-- The answers of a call that reads this content, and finds the issuer on its way up, with this parent. -/
def Acceptance (process : Process) (token content : String) (now issuerPid issuerPpid : Int) (told : List Answer) : Prop :=
  ∃ random found climbed last refused, told = opening process token random found content ++ .clock now :: (climbed ++ [last, .removed refused]) ∧
    Climbs process climbed issuerPid ∧ Tells process issuerPid last issuerPpid ∧ climbed.length < 64

/-- What a call that accepts has been told. -/
def Accepted (integerOf : List Char → Option Int) (call : Call) (told : List Answer) : Prop :=
  ∃ token content now record, call.token = some token ∧
    Acceptance call.process token content now record.issuerPid record.issuerPpid told ∧ RecordIn integerOf content record ∧ Current record now

/-! ## What a call has claimed -/

/-- The call has claimed its token by this path. -/
structure Claimed (call : Call) (claimedPath : String) : Prop where
  path : call.claimedPath = some claimedPath
  named : ∃ name, call.token = some name ∧ isTokenPattern name = true ∧ ∃ random, claimedPath = claimedName name call.process.pid random

/-- The call knows its token, and has not claimed it. -/
structure Unclaimed (call : Call) (token : String) : Prop where
  path : call.claimedPath = none
  named : call.token = some token
  pattern : isTokenPattern token = true

def CallState (call : Call) : Prop := match call.stage with
  | .beginning => call.claimedPath = none
  | .ensuring token | .claiming token => Unclaimed call token
  | .inspecting claimedPath | .reading claimedPath | .timing claimedPath _ | .walking claimedPath _ _ _ | .cleaning claimedPath _ =>
    Claimed call claimedPath
  | .returned result => (∀ claimedPath, call.claimedPath = some claimedPath → Claimed call claimedPath) ∧
      (result = true → call.claimedPath.isSome = true)

/-- What a move of a call does to the store. -/
inductive Effect (files : Store) (call : Call) (files' : Store) (call' : Call) : Prop
  | still : files' = files → call'.claimedPath = call.claimedPath → Effect files call files' call'
  | claimed (token : String) (file : TokenFile) (claimedPath : String) : call.claimedPath = none → call.token = some token →
      files token = some file → files' = files.rename token claimedPath file → Claimed call' claimedPath → Effect files call files' call'
  | removed (claimedPath : String) : files' = files.put claimedPath none → call'.claimedPath = call.claimedPath → Effect files call files' call'

/-! ## What one answer does -/

theorem currentRecord_eq_some {now : Int} {candidate : Candidate} {record : TrustTokenRecord} (h : currentRecord now candidate = some record) :
    Current record now := by
  unfold currentRecord at h
  split at h
  · rename_i createdAt expiresAt issuerPid issuerPpid _ _ _ _
    split at h
    · rename_i hchecks
      simp only [Bool.and_eq_true, decide_eq_true_eq, beq_iff_eq] at hchecks
      cases h
      obtain ⟨⟨⟨⟨⟨⟨⟨⟨⟨_, _⟩, hlifetime⟩, hcreated⟩, hunexpired⟩, _⟩, hissuer⟩, _⟩, _⟩, _⟩ := hchecks
      exact ⟨hcreated, hunexpired, hlifetime, hissuer⟩
    · cases h
  · cases h

variable {integerOf : List Char → Option Int} {files files' : Store} {call call' : Call} {answer : Answer}

theorem walkOn_claimed {claimedPath : String} (hclaimed : Claimed call claimedPath) (record : TrustTokenRecord) (candidatePid : Int) (depth : Nat)
    (hstage : call.stage = walkOn claimedPath record candidatePid depth) : CallState call := by
  unfold walkOn at hstage
  unfold CallState
  by_cases hgoes : depth < 64 ∧ 0 < candidatePid
  · rw [if_pos hgoes] at hstage
    rw [hstage]
    exact hclaimed
  · rw [if_neg hgoes] at hstage
    rw [hstage]
    exact hclaimed

/-- A turn of the loop over the ancestors stays with the path. -/
theorem climb_claimed {claimedPath : String} (hclaimed : Claimed call claimedPath) (record : TrustTokenRecord) (candidatePid : Int) (depth : Nat)
    (parentPid : Option Int) (hstage : call.stage = climb claimedPath record candidatePid depth parentPid) : CallState call := by
  have hcleaning : ∀ result, call.stage = .cleaning claimedPath result → CallState call := by
    intro result hresult
    unfold CallState
    rw [hresult]
    exact hclaimed
  unfold climb at hstage
  by_cases hissuer : candidatePid = record.issuerPid
  · rw [if_pos hissuer] at hstage
    exact hcleaning _ hstage
  rw [if_neg hissuer] at hstage
  cases parentPid with
  | none => exact hcleaning _ hstage
  | some parentPid =>
    dsimp only at hstage
    by_cases hsame : parentPid = candidatePid
    · rw [if_pos hsame] at hstage
      exact hcleaning _ hstage
    · rw [if_neg hsame] at hstage
      exact walkOn_claimed hclaimed record parentPid (depth + 1) hstage

theorem advance_keeps (hstate : CallState call) (h : advance integerOf files call answer = some (files', call')) :
    CallState call' ∧ Effect files call files' call' := by
  unfold CallState at hstate
  unfold advance at h
  cases hstage : call.stage with
  | beginning =>
    rw [hstage] at h hstate
    cases answer with
    | called =>
      cases h
      refine ⟨?_, .still rfl rfl⟩
      cases htoken : call.token with
      | none => exact ⟨fun _ hpath => absurd (hstate.symm.trans hpath) (by simp), fun hresult => (nomatch hresult)⟩
      | some token =>
        by_cases hpattern : isTokenPattern token = true
        · dsimp only
          rw [if_pos hpattern]
          exact ⟨hstate, rfl, hpattern⟩
        · dsimp only
          rw [if_neg hpattern]
          exact ⟨fun _ hpath => absurd (hstate.symm.trans hpath) (by simp), fun hresult => (nomatch hresult)⟩
    | _ => cases h
  | ensuring token =>
    rw [hstage] at h hstate
    cases answer with
    | store found =>
      cases h
      refine ⟨?_, .still rfl rfl⟩
      by_cases hfound : ensureStoreDirectory call.process found = true
      · rw [if_pos hfound]
        exact ⟨hstate.path, hstate.named, hstate.pattern⟩
      · rw [if_neg hfound]
        exact ⟨fun _ hpath => absurd (hstate.path.symm.trans hpath) (by simp), fun hresult => (nomatch hresult)⟩
    | _ => cases h
  | claiming token =>
    rw [hstage] at h hstate
    cases answer with
    | renamed random refused =>
      dsimp only at h
      cases hfile : files token with
      | none =>
        rw [hfile] at h
        cases h
        exact ⟨⟨fun _ hpath => absurd (hstate.path.symm.trans hpath) (by simp), fun hresult => (nomatch hresult)⟩, .still rfl rfl⟩
      | some file =>
        rw [hfile] at h
        cases refused with
        | true =>
          cases h
          exact ⟨⟨fun _ hpath => absurd (hstate.path.symm.trans hpath) (by simp), fun hresult => (nomatch hresult)⟩, .still rfl rfl⟩
        | false =>
          cases h
          have hclaimed : ∀ stage, Claimed { call with stage := stage, claimedPath := some (claimedName token call.process.pid random) }
              (claimedName token call.process.pid random) := fun _ => ⟨rfl, token, hstate.named, hstate.pattern, random, rfl⟩
          exact ⟨hclaimed _, .claimed token file _ hstate.path hstate.named hfile rfl (hclaimed _)⟩
    | _ => cases h
  | inspecting claimedPath =>
    rw [hstage] at h hstate
    cases answer with
    | inspected failed =>
      cases h
      refine ⟨?_, .still rfl rfl⟩
      by_cases hsecure : isSecureClaimedToken call.process (if failed then none else files claimedPath) = true
      · rw [if_pos hsecure]
        exact ⟨hstate.path, hstate.named⟩
      · rw [if_neg hsecure]
        exact ⟨hstate.path, hstate.named⟩
    | _ => cases h
  | reading claimedPath =>
    rw [hstage] at h hstate
    cases answer with
    | read path content =>
      dsimp only at h
      split at h
      · cases h
      cases h
      refine ⟨?_, .still rfl rfl⟩
      cases content.bind fun content => (parse integerOf content).bind (readCandidate call.process.env) with
      | none => exact ⟨hstate.path, hstate.named⟩
      | some candidate => exact ⟨hstate.path, hstate.named⟩
    | _ => cases h
  | timing claimedPath candidate =>
    rw [hstage] at h hstate
    cases answer with
    | clock now =>
      dsimp only at h
      cases hrecord : currentRecord now candidate with
      | none =>
        rw [hrecord] at h
        cases h
        exact ⟨⟨hstate.path, hstate.named⟩, .still rfl rfl⟩
      | some record =>
        rw [hrecord] at h
        cases h
        exact ⟨walkOn_claimed ⟨hstate.path, hstate.named⟩ record call.process.pid 0 rfl, .still rfl rfl⟩
    | _ => cases h
  | walking claimedPath record candidatePid depth =>
    rw [hstage] at h hstate
    cases answer with
    | parent pid ppid output =>
      dsimp only at h
      split at h
      · cases h
      cases h
      exact ⟨climb_claimed ⟨hstate.path, hstate.named⟩ record candidatePid depth _ rfl, .still rfl rfl⟩
    | _ => cases h
  | cleaning claimedPath result =>
    rw [hstage] at h hstate
    cases answer with
    | removed refused =>
      cases h
      refine ⟨⟨fun other hother => ?_, fun _ => ?_⟩, ?_⟩
      · cases hstate.path.symm.trans hother
        exact ⟨hstate.path, hstate.named⟩
      · show call.claimedPath.isSome = true
        rw [hstate.path]
        rfl
      · cases refused with
        | true => exact .still rfl rfl
        | false => exact .removed claimedPath rfl rfl
    | _ => cases h
  | returned result =>
    rw [hstage] at h
    cases answer <;> cases h

/-! ## What it was told before -/

/-- A call with these answers has read this record in its token's file. -/
def HasRead (integerOf : List Char → Option Int) (call : Call) (token content : String) (candidate : Candidate) (told : List Answer) : Prop :=
  call.token = some token ∧ (∃ random found, told = opening call.process token random found content) ∧
    (parse integerOf content).bind (readCandidate call.process.env) = some candidate

/-- A call with these answers has read a current record, and found its issuer with its parent. -/
def Verified (integerOf : List Char → Option Int) (call : Call) (told : List Answer) : Prop :=
  ∃ token content candidate beginning now climbed last record, HasRead integerOf call token content candidate beginning ∧
    told = beginning ++ .clock now :: (climbed ++ [last]) ∧ currentRecord now candidate = some record ∧
    Climbs call.process climbed record.issuerPid ∧ Tells call.process record.issuerPid last record.issuerPpid ∧ climbed.length < 64

def Heard (integerOf : List Char → Option Int) (told : List Answer) (call : Call) : Prop := match call.stage with
  | .beginning => told = []
  | .ensuring token => call.token = some token ∧ told = [.called]
  | .claiming token => call.token = some token ∧ ∃ found, told = [.called, .store found]
  | .inspecting claimedPath => ∃ token random found, call.token = some token ∧ claimedPath = claimedName token call.process.pid random ∧
      told = [.called, .store found, .renamed random false]
  | .reading claimedPath => ∃ token random found, call.token = some token ∧ claimedPath = claimedName token call.process.pid random ∧
      told = [.called, .store found, .renamed random false, .inspected false]
  | .timing _ candidate => ∃ token content, HasRead integerOf call token content candidate told
  | .walking _ record candidatePid depth => ∃ token content candidate beginning now climbed, HasRead integerOf call token content candidate beginning ∧
      told = beginning ++ .clock now :: climbed ∧ currentRecord now candidate = some record ∧ Climbs call.process climbed candidatePid ∧
      climbed.length = depth ∧ depth < 64
  | .cleaning _ result => result = true → Verified integerOf call told
  | .returned result => result = true → ∃ before refused, told = before ++ [.removed refused] ∧ Verified integerOf call before

theorem readParentProcessId_tells {process : Process} {pid parent : Int} {ppid : Nat} {output : Option String}
    (h : readParentProcessId process pid ppid output = some parent) : Tells process pid (.parent pid ppid output) parent := by
  unfold readParentProcessId at h
  unfold Tells
  refine ⟨rfl, ?_⟩
  by_cases hown : pid = process.pid
  · rw [if_pos hown] at h ⊢
    exact (Option.some.inj h).symm
  · rw [if_neg hown] at h ⊢
    obtain ⟨text, htext, h⟩ := Option.bind_eq_some_iff.mp h
    obtain ⟨read, hread, h⟩ := Option.bind_eq_some_iff.mp h
    split at h
    · cases h
      exact Option.bind_eq_some_iff.mpr ⟨text, htext, hread⟩
    · cases h

variable {told : List Answer}

theorem walkOn_heard {claimedPath token content : String} {candidate : Candidate} {record : TrustTokenRecord} {candidatePid now : Int}
    {depth : Nat} {beginning climbed : List Answer} (hread : HasRead integerOf call token content candidate beginning)
    (hrecord : currentRecord now candidate = some record) (hclimbs : Climbs call.process climbed candidatePid) (hlength : climbed.length = depth)
    (hstage : call.stage = walkOn claimedPath record candidatePid depth) : Heard integerOf (beginning ++ .clock now :: climbed) call := by
  unfold walkOn at hstage
  unfold Heard
  by_cases hgoes : depth < 64 ∧ 0 < candidatePid
  · rw [if_pos hgoes] at hstage
    rw [hstage]
    exact ⟨token, content, candidate, beginning, now, climbed, hread, rfl, hrecord, hclimbs, hlength, hgoes.1⟩
  · rw [if_neg hgoes] at hstage
    rw [hstage]
    exact fun hresult => by cases hresult

/-- A turn of the loop over the ancestors: the issuer's parent is compared, another's is the next to ask about. -/
theorem climb_heard {claimedPath token content : String} {candidate : Candidate} {record : TrustTokenRecord} {candidatePid now : Int} {ppid : Nat}
    {output : Option String} {beginning climbed : List Answer} (hread : HasRead integerOf call token content candidate beginning)
    (hrecord : currentRecord now candidate = some record) (hclimbs : Climbs call.process climbed candidatePid) (hdepth : climbed.length < 64)
    (hstage : call.stage = climb claimedPath record candidatePid climbed.length (readParentProcessId call.process candidatePid ppid output)) :
    Heard integerOf (beginning ++ .clock now :: (climbed ++ [.parent candidatePid ppid output])) call := by
  have hrefused : call.stage = .cleaning claimedPath false →
      Heard integerOf (beginning ++ .clock now :: (climbed ++ [.parent candidatePid ppid output])) call := by
    intro hcleaning
    unfold Heard
    rw [hcleaning]
    exact fun hresult => by cases hresult
  unfold climb at hstage
  by_cases hissuer : candidatePid = record.issuerPid
  · rw [if_pos hissuer] at hstage
    unfold Heard
    rw [hstage]
    intro haccepted
    have hparent := readParentProcessId_tells (beq_iff_eq.mp haccepted)
    rw [hissuer] at hparent hclimbs
    exact ⟨token, content, candidate, beginning, now, climbed, _, record, hread, by rw [hissuer], hrecord, hclimbs, hparent, hdepth⟩
  · rw [if_neg hissuer] at hstage
    cases hparent : readParentProcessId call.process candidatePid ppid output with
    | none =>
      rw [hparent] at hstage
      exact hrefused hstage
    | some parentPid =>
      rw [hparent] at hstage
      dsimp only at hstage
      by_cases hsame : parentPid = candidatePid
      · rw [if_pos hsame] at hstage
        exact hrefused hstage
      · rw [if_neg hsame] at hstage
        refine walkOn_heard hread hrecord (hclimbs.snoc (readParentProcessId_tells hparent)) ?_ hstage
        rw [List.length_append, List.length_singleton]

theorem advance_heard (hheard : Heard integerOf told call) (h : advance integerOf files call answer = some (files', call')) :
    Heard integerOf (told ++ [answer]) call' := by
  unfold Heard at hheard
  unfold advance at h
  cases hstage : call.stage with
  | beginning =>
    rw [hstage] at h hheard
    cases answer with
    | called =>
      cases h
      unfold Heard
      cases htoken : call.token with
      | none => exact fun hresult => by cases hresult
      | some token =>
        by_cases hpattern : isTokenPattern token = true
        · simp only [if_pos hpattern, hheard]
          exact ⟨trivial, rfl⟩
        · simp only [if_neg hpattern]
          exact fun hresult => by cases hresult
    | _ => cases h
  | ensuring token =>
    rw [hstage] at h hheard
    cases answer with
    | store found =>
      cases h
      unfold Heard
      by_cases hfound : ensureStoreDirectory call.process found = true
      · simp only [if_pos hfound, hheard.2]
        exact ⟨hheard.1, found, rfl⟩
      · simp only [if_neg hfound]
        exact fun hresult => by cases hresult
    | _ => cases h
  | claiming token =>
    rw [hstage] at h hheard
    obtain ⟨htoken, found, rfl⟩ := hheard
    cases answer with
    | renamed random refused =>
      dsimp only at h
      cases hfile : files token with
      | none =>
        rw [hfile] at h
        cases h
        exact fun hresult => by cases hresult
      | some file =>
        rw [hfile] at h
        cases refused with
        | true =>
          cases h
          exact fun hresult => by cases hresult
        | false =>
          cases h
          exact ⟨token, random, found, htoken, rfl, rfl⟩
    | _ => cases h
  | inspecting claimedPath =>
    rw [hstage] at h hheard
    obtain ⟨token, random, found, htoken, hpath, rfl⟩ := hheard
    cases answer with
    | inspected failed =>
      cases h
      unfold Heard
      by_cases hsecure : isSecureClaimedToken call.process (if failed then none else files claimedPath) = true
      · simp only [if_pos hsecure]
        cases failed with
        | true => cases hsecure
        | false => exact ⟨token, random, found, htoken, hpath, rfl⟩
      · simp only [if_neg hsecure]
        exact fun hresult => by cases hresult
    | _ => cases h
  | reading claimedPath =>
    rw [hstage] at h hheard
    obtain ⟨token, random, found, htoken, hpath, rfl⟩ := hheard
    cases answer with
    | read path content =>
      dsimp only at h
      split at h
      · cases h
      rename_i hasked
      have hsame : path = claimedPath := not_not.mp (not_or.mp hasked).1
      cases h
      unfold Heard
      cases hcandidate : content.bind fun content => (parse integerOf content).bind (readCandidate call.process.env) with
      | none => exact fun hresult => by cases hresult
      | some candidate =>
        obtain ⟨content, rfl, hread⟩ := Option.bind_eq_some_iff.mp hcandidate
        rw [hsame, hpath]
        exact ⟨token, content, htoken, ⟨random, found, rfl⟩, hread⟩
    | _ => cases h
  | timing claimedPath candidate =>
    rw [hstage] at h hheard
    obtain ⟨token, content, hread⟩ := hheard
    cases answer with
    | clock now =>
      dsimp only at h
      cases hrecord : currentRecord now candidate with
      | none =>
        rw [hrecord] at h
        cases h
        exact fun hresult => by cases hresult
      | some record =>
        rw [hrecord] at h
        cases h
        have hclimbs : Climbs call.process [] call.process.pid := .nil
        exact walkOn_heard hread hrecord hclimbs rfl rfl
    | _ => cases h
  | walking claimedPath record candidatePid depth =>
    rw [hstage] at h hheard
    obtain ⟨token, content, candidate, beginning, now, climbed, hread, rfl, hrecord, hclimbs, rfl, hdepth⟩ := hheard
    cases answer with
    | parent pid ppid output =>
      dsimp only at h
      split at h
      · cases h
      rename_i hasked
      cases not_not.mp hasked
      cases h
      rw [List.append_assoc, List.cons_append]
      exact climb_heard hread hrecord hclimbs hdepth rfl
    | _ => cases h
  | cleaning claimedPath result =>
    rw [hstage] at h hheard
    cases answer with
    | removed refused =>
      cases h
      exact fun hresult => ⟨told, refused, rfl, hheard hresult⟩
    | _ => cases h
  | returned result =>
    rw [hstage] at h
    cases answer <;> cases h

theorem currentRecord_fields {now : Int} {candidate : Candidate} {record : TrustTokenRecord} (h : currentRecord now candidate = some record) :
    candidate.createdAt = some record.createdAt ∧ candidate.expiresAt = some record.expiresAt ∧
      candidate.issuerPid = some record.issuerPid ∧ candidate.issuerPpid = some record.issuerPpid := by
  unfold currentRecord at h
  split at h
  · rename_i hcreated hexpires hpid hppid
    split at h
    · cases h
      exact ⟨hcreated, hexpires, hpid, hppid⟩
    · cases h
  · cases h

theorem asNumber_eq {value : Option JsonValue} {number : Option Int} (h : asNumber value = some number) : value = some (.number number) := by
  unfold asNumber at h
  split at h
  · cases h
    rfl
  · cases h

/-- A candidate's numbers stand in the object it was read from. -/
theorem readCandidate_fields {env : TrustEnvironment} {value : JsonValue} {candidate : Candidate} (h : readCandidate env value = some candidate) :
    value.field "createdAt" = some (.number candidate.createdAt) ∧ value.field "expiresAt" = some (.number candidate.expiresAt) ∧
      value.field "issuerPid" = some (.number candidate.issuerPid) ∧ value.field "issuerPpid" = some (.number candidate.issuerPpid) := by
  unfold readCandidate at h
  split at h
  · split at h
    · cases h
    split at h
    · split at h
      · cases h
      split at h
      · rename_i hcreated hexpires hpid hppid _ _
        split at h
        · cases h
          exact ⟨asNumber_eq hcreated, asNumber_eq hexpires, asNumber_eq hpid, asNumber_eq hppid⟩
        · cases h
      · cases h
    · cases h
  · cases h

/-- A call that has returned true has heard what an acceptance takes. -/
theorem Verified.accepted (h : Verified integerOf call told) (refused : Bool) :
    ∃ token content candidate now record, call.token = some token ∧
      Acceptance call.process token content now record.issuerPid record.issuerPpid (told ++ [.removed refused]) ∧
      (parse integerOf content).bind (readCandidate call.process.env) = some candidate ∧ currentRecord now candidate = some record := by
  obtain ⟨token, content, candidate, beginning, now, climbed, last, record, hread, rfl, hrecord, hclimbs, htells, hdepth⟩ := h
  obtain ⟨htoken, ⟨random, found, rfl⟩, hcandidate⟩ := hread
  refine ⟨token, content, candidate, now, record, htoken, ⟨random, found, climbed, last, refused, ?_, hclimbs, htells, hdepth⟩, hcandidate, hrecord⟩
  simp

theorem recordIn_of_candidate {env : TrustEnvironment} {content : String} {candidate : Candidate} {now : Int} {record : TrustTokenRecord}
    (hcandidate : (parse integerOf content).bind (readCandidate env) = some candidate) (hrecord : currentRecord now candidate = some record) :
    RecordIn integerOf content record := by
  obtain ⟨value, hvalue, hread⟩ := Option.bind_eq_some_iff.mp hcandidate
  obtain ⟨hcreated, hexpires, hpid, hppid⟩ := readCandidate_fields hread
  obtain ⟨hcreated', hexpires', hpid', hppid'⟩ := currentRecord_fields hrecord
  rw [hcreated'] at hcreated
  rw [hexpires'] at hexpires
  rw [hpid'] at hpid
  rw [hppid'] at hppid
  exact ⟨value, hvalue, hcreated, hexpires, hpid, hppid⟩

/-! ## How far a call is -/

/-- The answers that are still to come, at most. -/
def Stage.left : Stage → Nat
  | .beginning => 72
  | .ensuring _ => 71
  | .claiming _ => 70
  | .inspecting _ => 69
  | .reading _ => 68
  | .timing _ _ => 67
  | .walking _ _ _ depth => 66 - min depth 64
  | .cleaning _ _ => 1
  | .returned _ => 0

theorem walkOn_left (claimedPath : String) (record : TrustTokenRecord) (candidatePid : Int) (depth : Nat) :
    (walkOn claimedPath record candidatePid depth).left ≤ 66 - min depth 64 ∧ (0 < depth →
      (walkOn claimedPath record candidatePid depth).left < 66 - min (depth - 1) 64) := by
  unfold walkOn
  split
  · rename_i hgoes
    refine ⟨Nat.le_refl _, fun hdepth => ?_⟩
    show 66 - min depth 64 < 66 - min (depth - 1) 64
    omega
  · refine ⟨?_, fun _ => ?_⟩
    · show 1 ≤ 66 - min depth 64
      omega
    · show 1 < 66 - min (depth - 1) 64
      omega

theorem climb_left (claimedPath : String) (record : TrustTokenRecord) (candidatePid : Int) (depth : Nat) (parentPid : Option Int) :
    (climb claimedPath record candidatePid depth parentPid).left < 66 - min depth 64 := by
  have hcleaning : ∀ result, (Stage.cleaning claimedPath result).left < 66 - min depth 64 := by
    intro result
    show 1 < 66 - min depth 64
    omega
  unfold climb
  by_cases hissuer : candidatePid = record.issuerPid
  · rw [if_pos hissuer]
    exact hcleaning _
  rw [if_neg hissuer]
  cases parentPid with
  | none => exact hcleaning false
  | some parentPid =>
    dsimp only
    by_cases hsame : parentPid = candidatePid
    · rw [if_pos hsame]
      exact hcleaning false
    · rw [if_neg hsame]
      exact (walkOn_left claimedPath record parentPid (depth + 1)).2 (Nat.succ_pos depth)

/-- The call after an answer: its token stays, and so does a claim. -/
structure Further (call call' : Call) : Prop where
  token : call'.token = call.token
  claimed : call.claimedPath.isSome = true → call'.claimedPath.isSome = true

theorem Further.refl (call : Call) : Further call call := ⟨rfl, id⟩

theorem Further.trans {a b c : Call} (h : Further a b) (h' : Further b c) : Further a c :=
  ⟨h'.token.trans h.token, fun hclaimed => h'.claimed (h.claimed hclaimed)⟩

theorem advance_further (h : advance integerOf files call answer = some (files', call')) :
    Further call call' ∧ call'.stage.left < call.stage.left := by
  unfold advance at h
  split at h
  · rename_i hstage
    cases h
    rw [hstage]
    refine ⟨⟨rfl, id⟩, ?_⟩
    cases call.token with
    | none => simp [Stage.left]
    | some token =>
      dsimp only
      split <;> simp [Stage.left]
  · rename_i hstage
    cases h
    rw [hstage]
    refine ⟨⟨rfl, id⟩, ?_⟩
    dsimp only
    split <;> simp [Stage.left]
  · rename_i hstage
    rw [hstage]
    split at h
    · cases h
      exact ⟨⟨rfl, id⟩, by simp [Stage.left]⟩
    · dsimp only at h
      split at h
      · cases h
        exact ⟨⟨rfl, id⟩, by simp [Stage.left]⟩
      · cases h
        exact ⟨⟨rfl, fun _ => rfl⟩, by simp [Stage.left]⟩
  · rename_i hstage
    cases h
    rw [hstage]
    refine ⟨⟨rfl, id⟩, ?_⟩
    dsimp only
    split <;> split <;> simp [Stage.left]
  · rename_i hstage
    split at h
    · cases h
    cases h
    rw [hstage]
    refine ⟨⟨rfl, id⟩, ?_⟩
    dsimp only
    split <;> simp [Stage.left]
  · rename_i hstage
    rw [hstage]
    split at h
    · cases h
      exact ⟨⟨rfl, id⟩, by simp [Stage.left]⟩
    · cases h
      refine ⟨⟨rfl, id⟩, ?_⟩
      exact Nat.lt_succ_of_le (walkOn_left _ _ _ 0).1
  · rename_i hstage
    split at h
    · cases h
    cases h
    rw [hstage]
    exact ⟨⟨rfl, id⟩, climb_left _ _ _ _ _⟩
  · rename_i hstage
    cases h
    rw [hstage]
    exact ⟨⟨rfl, id⟩, by simp [Stage.left]⟩
  · cases h

/-! ## Calls that meet -/

theorem claimedName_not_token (token : String) (pid : Nat) (random : String) : isTokenPattern (claimedName token pid random) = false := by
  have hdot : '.' ∈ (claimedName token pid random).toList := by
    unfold claimedName
    simp [String.toList_append]
  unfold isTokenPattern isLowerHex
  rw [Bool.and_eq_false_iff]
  refine .inr (Bool.eq_false_iff.mpr fun hall => ?_)
  exact absurd (List.all_eq_true.mp hall '.' hdot) (by decide)

/-- A call's state, and the absence of the token it claimed. -/
structure Sound (files : Store) (call : Call) : Prop where
  state : CallState call
  absent : call.claimedPath.isSome = true → ∃ token, call.token = some token ∧ isTokenPattern token = true ∧ files token = none

/-- No call brings a token back. -/
theorem Effect.absent (h : Effect files call files' call') {token : String} (hpattern : isTokenPattern token = true) (habsent : files token = none) :
    files' token = none := by
  cases h with
  | still hfiles => rw [hfiles, habsent]
  | claimed source file claimedPath _ _ _ hfiles hclaimed =>
    obtain ⟨name, -, -, random, hname⟩ := hclaimed.named
    have hne : token ≠ claimedPath := by
      intro heq
      rw [heq, hname, claimedName_not_token] at hpattern
      cases hpattern
    rw [hfiles]
    show (if token = claimedPath then some file else if token = source then none else files token) = none
    rw [if_neg hne, habsent, ite_self]
  | removed claimedPath hfiles =>
    rw [hfiles]
    show (if token = claimedPath then none else files token) = none
    rw [habsent, ite_self]

theorem advance_sound (hsound : Sound files call) (h : advance integerOf files call answer = some (files', call')) : Sound files' call' := by
  obtain ⟨hstate, heffect⟩ := advance_keeps hsound.state h
  have hfurther := (advance_further h).1
  have hkept : call'.claimedPath = call.claimedPath → Sound files' call' := by
    intro hpath
    refine ⟨hstate, fun hclaimed => ?_⟩
    rw [hpath] at hclaimed
    obtain ⟨token, htoken, hpattern, habsent⟩ := hsound.absent hclaimed
    exact ⟨token, hfurther.token.trans htoken, hpattern, heffect.absent hpattern habsent⟩
  cases heffect with
  | still _ hpath => exact hkept hpath
  | removed _ _ hpath => exact hkept hpath
  | claimed token file claimedPath _ htoken _ hfiles hclaimed =>
    refine ⟨hstate, fun _ => ?_⟩
    obtain ⟨name, hname, hpattern, random, hpath⟩ := hclaimed.named
    cases (hfurther.token.trans htoken).symm.trans hname
    refine ⟨token, hname, hpattern, ?_⟩
    have hne : token ≠ claimedPath := by
      intro heq
      rw [heq, hpath, claimedName_not_token] at hpattern
      cases hpattern
    rw [hfiles]
    show (if token = claimedPath then some file else if token = token then none else files token) = none
    rw [if_neg hne, if_pos rfl]

theorem Call.Fresh.sound (h : call.Fresh) (files : Store) : Sound files call := by
  refine ⟨?_, fun hclaimed => ?_⟩
  · unfold CallState
    rw [h.stage]
    exact h.claimedPath
  · rw [h.claimedPath] at hclaimed
    cases hclaimed

theorem calls_sound {answers : List (Nat × Answer)} {s : Parties Store Call} (h : Run (validation integerOf) answers s) :
    ∀ (i : Nat) (call : Call), s.members[i]? = some call → Sound s.shared call := by
  refine each_member (fun files call hfresh => hfresh.sound files) (fun hsound hmove => advance_sound hsound hmove) ?_ h
  intro files call answer files' call' other hsound hmove hother
  refine ⟨hother.state, fun hclaimed => ?_⟩
  obtain ⟨token, htoken, hpattern, habsent⟩ := hother.absent hclaimed
  exact ⟨token, htoken, hpattern, (advance_keeps hsound.state hmove).2.absent hpattern habsent⟩

/-- Two calls never claim the same token. -/
theorem claims_apart {answers : List (Nat × Answer)} {s : Parties Store Call} (h : Run (validation integerOf) answers s) :
    ∀ (i j : Nat) (a b : Call), i ≠ j → s.members[i]? = some a → s.members[j]? = some b →
      a.claimedPath.isSome = true → b.claimedPath.isSome = true → a.token ≠ b.token := by
  refine each_pair (P := Sound) (Q := fun a b => a.claimedPath.isSome = true → b.claimedPath.isSome = true → a.token ≠ b.token)
    (fun hpair hb ha heq => hpair ha hb heq.symm) ?_ ?_ (fun hrun => calls_sound hrun) h
  · intro a b hfresh _ hclaimed
    rw [hfresh.claimedPath] at hclaimed
    cases hclaimed
  · intro files call answer files' call' other hsound hother hmove hpair hclaimed hclaimed'
    have hfurther := (advance_further hmove).1
    rw [hfurther.token]
    cases (advance_keeps hsound.state hmove).2 with
    | still _ hpath => exact hpair (hpath ▸ hclaimed) hclaimed'
    | removed _ _ hpath => exact hpair (hpath ▸ hclaimed) hclaimed'
    | claimed token file claimedPath _ htoken hfile _ _ =>
      -- the token was there, so no other call had taken it
      intro hsame
      obtain ⟨taken, htaken, -, habsent⟩ := hother.absent hclaimed'
      cases htoken.symm.trans (hsame.trans htaken)
      rw [hfile] at habsent
      cases habsent

/-! ## Accepted once -/

/-- A call that has not returned goes on. -/
theorem call_goes_on (files : Store) (hopen : ∀ result, call.stage ≠ .returned result) :
    ∃ answer moved, advance integerOf files call answer = some moved := by
  have hgoes : ∀ answer, (advance integerOf files call answer).isSome = true → ∃ answer moved, advance integerOf files call answer = some moved :=
    fun answer h => ⟨answer, Option.isSome_iff_exists.mp h⟩
  cases hstage : call.stage with
  | beginning => exact hgoes .called (by unfold advance; rw [hstage]; rfl)
  | ensuring token => exact hgoes (.store ⟨true, true, none⟩) (by unfold advance; rw [hstage]; rfl)
  | claiming token =>
    refine hgoes (.renamed "" true) ?_
    unfold advance
    rw [hstage]
    dsimp only
    cases files token <;> rfl
  | inspecting claimedPath => exact hgoes (.inspected true) (by unfold advance; rw [hstage]; rfl)
  | reading claimedPath => exact hgoes (.read claimedPath none) (by unfold advance; rw [hstage]; simp)
  | timing claimedPath candidate =>
    refine hgoes (.clock 0) ?_
    unfold advance
    rw [hstage]
    dsimp only
    cases currentRecord 0 candidate <;> rfl
  | walking claimedPath record candidatePid depth => exact hgoes (.parent candidatePid 0 none) (by unfold advance; rw [hstage]; simp)
  | cleaning claimedPath result => exact hgoes (.removed true) (by unfold advance; rw [hstage]; rfl)
  | returned result => exact absurd hstage (hopen result)

/-- No run has more than 72 answers a call. -/
theorem calls_end {answers : List (Nat × Answer)} {s : Parties Store Call} (h : Run (validation integerOf) answers s) :
    answers.length ≤ 72 * s.members.length := by
  obtain ⟨start, hstart, hsteps⟩ := h
  have hfresh : ∀ call ∈ start.members, call.Fresh := hstart
  have hbounded := moves_bounded (fun call : Call => call.stage.left) (fun hmove => (advance_further hmove).2) hsteps
  have htotal : total (fun call => call.stage.left) start.members ≤ 72 * start.members.length := by
    refine total_le fun call hcall => ?_
    rw [(hfresh call hcall).stage]
    exact Nat.le_refl 72
  rw [members_length hsteps]
  omega

theorem calls_heard {answers : List (Nat × Answer)} {s : Parties Store Call} (h : Run (validation integerOf) answers s) :
    ∀ (i : Nat) (call : Call), s.members[i]? = some call → Heard integerOf (heard i answers) call := by
  refine each_heard (fun call hfresh => ?_) (fun hheard hmove => advance_heard hheard hmove) h
  unfold Heard
  rw [hfresh.stage]

/-- One call at most accepts a token, none that starts after it was claimed, and only one that was told of its issuer among its ancestors. -/
theorem token_accepted_once (integerOf : List Char → Option Int) {answers : List (Nat × Answer)} {s : Parties Store Call}
    (h : Run (validation integerOf) answers s) :
    (∀ (i j : Nat) (a b : Call), s.members[i]? = some a → s.members[j]? = some b → a.token = b.token →
      a.stage = .returned true → b.stage = .returned true → i = j) ∧
    (∀ (later : List (Nat × Answer)) (s' : Parties Store Call) (i j : Nat) (a b b' : Call) (result : Bool),
      Steps (validation integerOf) s later s' → s.members[i]? = some a → a.claimedPath.isSome = true →
      s.members[j]? = some b → b.stage = .beginning → b.token = a.token →
      s'.members[j]? = some b' → b'.stage = .returned result → result = false) ∧
    (∀ (i : Nat) (call : Call), s.members[i]? = some call → call.stage = .returned true → Accepted integerOf call (heard i answers)) ∧
    answers.length ≤ 72 * s.members.length ∧
    ∀ (i : Nat) (call : Call), s.members[i]? = some call → (∀ result, call.stage ≠ .returned result) →
      ∃ answer s', (validation integerOf).step s (i, answer) s' := by
  have hclaimed : ∀ {answers : List (Nat × Answer)} {s : Parties Store Call}, Run (validation integerOf) answers s →
      ∀ (i : Nat) (call : Call), s.members[i]? = some call → call.stage = .returned true → call.claimedPath.isSome = true := by
    intro answers s hrun i call hget hstage
    have hstate := (calls_sound hrun i call hget).state
    unfold CallState at hstate
    rw [hstage] at hstate
    exact hstate.2 rfl
  refine ⟨?_, ?_, fun i call hget hstage => ?_, calls_end h, ?_⟩
  · intro i j a b ha hb htoken hastage hbstage
    by_contra hij
    exact claims_apart h i j a b hij ha hb (hclaimed h i a ha hastage) (hclaimed h j b hb hbstage) htoken
  · intro later s' i j a b b' result hsteps ha haclaimed hb hbstage htoken hb' hb'stage
    by_contra htrue
    rw [Bool.not_eq_false] at htrue
    subst htrue
    obtain ⟨start, hstart, hearlier⟩ := h
    have hrun : Run (validation integerOf) (answers ++ later) s' := ⟨start, hstart, hearlier.trans hsteps⟩
    obtain ⟨a', ha', hfurther⟩ := member_later Further.refl Further.trans (fun hmove => (advance_further hmove).1) hsteps ha
    obtain ⟨b'', hb'', hfurther'⟩ := member_later Further.refl Further.trans (fun hmove => (advance_further hmove).1) hsteps hb
    cases hb'.symm.trans hb''
    have hij : i ≠ j := by
      intro hsame
      subst hsame
      cases ha.symm.trans hb
      have hstate := (calls_sound ⟨start, hstart, hearlier⟩ i a ha).state
      unfold CallState at hstate
      rw [hbstage] at hstate
      rw [show a.claimedPath = none from hstate] at haclaimed
      cases haclaimed
    refine claims_apart hrun i j a' b' hij ha' hb' (hfurther.claimed haclaimed) (hclaimed hrun j b' hb' hb'stage) ?_
    rw [hfurther.token, hfurther'.token, htoken]
  · have hheard := calls_heard h i call hget
    unfold Heard at hheard
    rw [hstage] at hheard
    obtain ⟨before, refused, hbefore, hverified⟩ := hheard rfl
    obtain ⟨token, content, candidate, now, record, htoken, hacceptance, hcandidate, hrecord⟩ := hverified.accepted refused
    rw [hbefore]
    exact ⟨token, content, now, record, htoken, hacceptance, recordIn_of_candidate hcandidate hrecord, currentRecord_eq_some hrecord⟩
  · intro i call hget hopen
    obtain ⟨answer, moved, hmoved⟩ := call_goes_on s.shared hopen
    exact ⟨answer, _, call, moved.1, moved.2, hget, hmoved, rfl⟩

def sampleToken : String := String.ofList (List.replicate 64 'a')

def sampleFields : List (String × Scalar) :=
  [("issuer", .text trustedIssuer), ("createdAt", .count 5000), ("expiresAt", .count 35000), ("issuerPid", .count 10),
    ("issuerPpid", .count 9), ("issuerCwd", .text "/home/u/git-commits-push"), ("issuerStackHash", .text sampleToken)]

def sampleRecord : String := String.ofList (flatText ("version", .count 1) sampleFields)

def sampleCall (pid : Nat) : Call := ⟨some sampleToken, ⟨pid, some 500, sampleTrust⟩, .beginning, none, none⟩

/-- Two processes with one token in the store. -/
def sampleCalls : Parties Store Call :=
  ⟨fun name => if name = sampleToken then some ⟨⟨true, false, false, 0o100600, 300, 500⟩, sampleRecord⟩ else none, [sampleCall 12, sampleCall 13]⟩

def sampleStore : StoreReading := ⟨true, false, some ⟨false, true, false, 0o40700, 64, 500⟩⟩

/-- Both calls come to the claim before either has made it; the removal is refused. -/
def sampleAnswers : List (Nat × Answer) :=
  [(0, .called), (1, .called), (0, .store sampleStore), (1, .store sampleStore), (0, .renamed "00" false), (1, .renamed "11" false),
    (0, .inspected false), (0, .read (claimedName sampleToken 12 "00") (some sampleRecord)), (0, .clock 20000), (0, .parent 12 10 none),
    (0, .parent 10 10 (some " 9\n")), (0, .removed true)]

def Call.result (call : Call) : Option Bool := match call.stage with
  | .returned result => some result
  | _ => none

def sampleIntegerOf (numeral : List Char) : Option Int := some (digitsValue numeral)

theorem sampleCalls_fresh : ∀ call ∈ sampleCalls.members, call.Fresh := by
  intro call hcall
  rcases List.mem_cons.mp hcall with rfl | hcall
  · exact ⟨rfl, rfl, rfl⟩
  · cases List.mem_singleton.mp hcall
    exact ⟨rfl, rfl, rfl⟩

theorem digitsValue_eq (digits : List Char) : digitsValue digits = (Nat.ofDigitChars 10 digits 0 : Nat) := by
  have hfold : ∀ n : Nat, digits.foldl (fun (n : Int) c => 10 * n + (c.toNat - '0'.toNat : Nat)) n = (Nat.ofDigitChars 10 digits n : Nat) := by
    induction digits with
    | nil => exact fun _ => rfl
    | cons c digits ih => exact fun n => ih (10 * n + (c.toNat - '0'.toNat))
  exact hfold 0

theorem sampleIntegerOf_reads : ReadsNumerals sampleIntegerOf := by
  intro n
  unfold sampleIntegerOf
  rw [digitsValue_eq, numeralOf_eq, Nat.ofDigitChars_ten_toDigits]

/-- A text written out is told from others without reading it again. -/
theorem parse_known (hreads : ReadsNumerals integerOf) (field : String × Scalar) (others : List (String × Scalar))
    (hnames : ((field :: others).map (·.1)).Nodup) :
    parse integerOf = fun content => if content = String.ofList (flatText field others) then some (.object (flatFields (field :: others)))
      else parse integerOf content := by
  funext content
  by_cases h : content = String.ofList (flatText field others)
  · rw [if_pos h, h]
    exact parse_flatText hreads field others hnames
  · rw [if_neg h]

theorem sampleCalls_results : ((replay (advance sampleIntegerOf) sampleCalls sampleAnswers).map fun s => s.members.map Call.result) =
    some [some true, some false] := by
  unfold advance
  rw [parse_known sampleIntegerOf_reads ("version", .count 1) sampleFields (by decide)]
  decide +kernel

/-- The call that claims first accepts, and what it is told is as the theorem says. -/
theorem token_race_accepted_once : ∃ s : Parties Store Call, Run (validation sampleIntegerOf) sampleAnswers s ∧
    s.members.map Call.result = [some true, some false] ∧
    (∀ (i : Nat) (call : Call), s.members[i]? = some call → call.stage = .returned true →
      Accepted sampleIntegerOf call (heard i sampleAnswers)) ∧
    ∀ (i j : Nat) (a b : Call), s.members[i]? = some a → s.members[j]? = some b → a.token = b.token →
      a.stage = .returned true → b.stage = .returned true → i = j := by
  obtain ⟨s, hreplay, hresults⟩ := Option.map_eq_some_iff.mp sampleCalls_results
  have hrun : Run (validation sampleIntegerOf) sampleAnswers s := ⟨sampleCalls, sampleCalls_fresh, replay_steps hreplay⟩
  have hrules := token_accepted_once sampleIntegerOf hrun
  exact ⟨s, hrun, hresults, hrules.2.2.1, hrules.1⟩

end GitCommitsPush.Trust
