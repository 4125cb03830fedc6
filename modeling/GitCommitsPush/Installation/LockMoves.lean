/-
  GitCommitsPush.Installation.LockMoves — what one answer does to an installer and to the lock.

  - `readText_text`: a record's text reads back as the record, or as no record.
  - `Facts`: what a process knows of the lock and the directory, by its stage. `LockSound`: what
    holds of both whoever moves.
  - `advance_keeps`: every answer keeps the two, and changes for the others only what `Effect` says.
-/

import GitCommitsPush.Installation.InstallLock

namespace GitCommitsPush.Installation

open GitCommitsPush.Lib.FlatObject
open GitCommitsPush.Lib.JsText
open GitCommitsPush.Lib.JsonDocument (parse)
open GitCommitsPush.Lib.JsonTree
open GitCommitsPush.Trust (Stats sortedKeys asNumber)

/-! ## The record reads back -/

theorem InstallLockRecord.parse_text {integerOf : List Char → Option Int} (hreads : ReadsNumerals integerOf) (owner : InstallLockRecord) :
    parse integerOf owner.text = some (.object [("nonce", .string owner.nonce), ("pid", .number (some (owner.pid : Int))),
      ("processIdentity", .string owner.processIdentity), ("version", .number (some (1 : Int)))]) :=
  parse_flatText hreads _ _ (by
    show (["nonce", "pid", "processIdentity", "version"] : List String).Nodup
    decide)

/-- What a reader asks of a record. -/
structure InstallLockRecord.Valid (owner : InstallLockRecord) : Prop where
  nonce : isLowerHex 32 owner.nonce.toList = true
  safe : isSafeInteger owner.pid = true
  positive : 0 < owner.pid
  identity : 0 < length16 owner.processIdentity
  short : length16 owner.processIdentity ≤ 2048

instance (owner : InstallLockRecord) : Decidable owner.Valid :=
  decidable_of_iff (isLowerHex 32 owner.nonce.toList = true ∧ isSafeInteger owner.pid = true ∧ 0 < owner.pid ∧
      0 < length16 owner.processIdentity ∧ length16 owner.processIdentity ≤ 2048)
    ⟨fun h => ⟨h.1, h.2.1, h.2.2.1, h.2.2.2.1, h.2.2.2.2⟩, fun h => ⟨h.nonce, h.safe, h.positive, h.identity, h.short⟩⟩

/-- A record's text reads back as the record, or as no record. -/
theorem readText_text {integerOf : List Char → Option Int} (hreads : ReadsNumerals integerOf) (owner : InstallLockRecord) :
    readText integerOf owner.text = if owner.Valid then .ok owner else .error .invalidRecord := by
  have hrecord : asInstallLockRecord (.object [("nonce", .string owner.nonce), ("pid", .number (some (owner.pid : Int))),
      ("processIdentity", .string owner.processIdentity), ("version", .number (some (1 : Int)))]) =
      if isLowerHex 32 owner.nonce.toList && isSafeInteger owner.pid && decide ((0 : Int) < owner.pid) &&
        decide (0 < length16 owner.processIdentity) && decide (length16 owner.processIdentity ≤ 2048) then some owner else none := by
    have hkeys : sortedKeys [("nonce", .string owner.nonce), ("pid", .number (some (owner.pid : Int))),
        ("processIdentity", .string owner.processIdentity), ("version", .number (some (1 : Int)))] = installLockRecordKeys := by
      show List.insertionSort (fun a b => unitsLe a b = true) ["nonce", "pid", "processIdentity", "version"] = installLockRecordKeys
      decide
    unfold asInstallLockRecord
    dsimp only
    rw [if_neg (not_not_intro hkeys)]
    rfl
  unfold readText
  rw [owner.parse_text hreads]
  dsimp only
  rw [hrecord]
  by_cases hvalid : owner.Valid
  · rw [if_pos hvalid, if_pos (by simp [hvalid.nonce, hvalid.safe, hvalid.positive, hvalid.identity, hvalid.short])]
  · rw [if_neg hvalid, if_neg]
    intro hchecks
    simp only [Bool.and_eq_true, decide_eq_true_eq] at hchecks
    exact hvalid ⟨hchecks.1.1.1.1, hchecks.1.1.1.2, by omega, hchecks.1.2, hchecks.2⟩

/-- What reads as a record from a record's text is that record. -/
theorem readText_eq {integerOf : List Char → Option Int} (hreads : ReadsNumerals integerOf) {owner found : InstallLockRecord}
    (h : readText integerOf owner.text = .ok found) : found = owner := by
  rw [readText_text hreads] at h
  split at h
  · exact (Except.ok.inj h).symm
  · cases h

/-! ## Names -/

section Names

variable (lockPath : LockPath)

theorem candidate_isStale {nonce : String} (h : isLowerHex 32 nonce.toList = true) :
    isStaleCandidate lockPath (candidateName lockPath nonce) = true := by
  unfold isStaleCandidate candidateName
  rw [String.toList_append, List.drop_left, h, Bool.and_true, List.isPrefixOf_iff_prefix]
  exact List.prefix_append _ _

theorem owner_not_stale : isStaleCandidate lockPath (ownerRecordName lockPath) = false := by
  unfold isStaleCandidate candidatePrefix
  rw [Bool.and_eq_false_iff]
  left
  rw [Bool.eq_false_iff]
  intro h
  have hlength := (List.isPrefixOf_iff_prefix.mp h).length_le
  have htail : (".candidate-" : String).toList.length = 11 := rfl
  rw [String.toList_append, List.length_append, htail] at hlength
  omega

theorem staleName_not_stale (now : Nat) (nonce : String) : isStaleCandidate lockPath (staleName lockPath now nonce) = false := by
  unfold isStaleCandidate candidatePrefix staleName
  rw [Bool.and_eq_false_iff]
  left
  rw [Bool.eq_false_iff]
  intro h
  have hprefix := List.isPrefixOf_iff_prefix.mp h
  simp only [String.toList_append, List.append_assoc] at hprefix
  obtain ⟨rest, hrest⟩ := hprefix
  rw [List.append_assoc] at hrest
  have htail := List.append_cancel_left hrest
  simp at htail

theorem ne_of_stale {name other : String} (h : isStaleCandidate lockPath name = true) (h' : isStaleCandidate lockPath other = false) :
    name ≠ other := by
  rintro rfl
  rw [h] at h'
  cases h'

end Names

/-! ## What an installer knows -/

/-- The process runs. -/
def Stage.lives : Stage → Bool
  | .unborn | .dead => false
  | _ => true

/-- The process has the exclusive transaction, and has not given it up. -/
def Stage.inside : Stage → Bool
  | .unborn | .dead | .idle _ | .ensuring | .beginning | .refusing _ | .stating .message | .reading .message | .closing _ | .aborting _ => false
  | _ => true

/-- The record that the process writes or has written. -/
def Stage.owner : Stage → Option InstallLockRecord
  | .listing owner | .removing owner _ | .looking owner | .stating (.archive owner) | .reading (.archive owner) | .probing owner _
  | .observing owner _ | .archiving owner _ | .creating owner _ | .writing owner _ | .flushing owner _ | .linking owner _
  | .dropping owner _ _ | .holding owner _ | .stating (.release owner) | .reading (.release owner) | .unrecording owner => some owner
  | _ => none

/-- What a call has thrown, or is to throw. -/
def Stage.error : Stage → Option LockError
  | .idle (some (.failed error)) | .rollingBack error | .aborting error | .closing (some error) | .dropping _ _ (some error) => some error
  | _ => none

/-- The process has called nothing yet. -/
def Stage.isFresh : Stage → Bool
  | .idle none => true
  | _ => false

structure Installer.Owns (process : Installer) (owner : InstallLockRecord) : Prop where
  pid : owner.pid = process.pid
  identity : owner.processIdentity = process.processIdentity
  nonce : isLowerHex 32 owner.nonce.toList = true

section Knowledge

variable (lockPath : LockPath) (integerOf : List Char → Option Int) (fit : Installer → Prop)

def Clean (directory : Directory) : Prop := ∀ name ∈ directory, isStaleCandidate lockPath name = false

/-- No candidate but the process's own. -/
def OnlyOwn (directory : Directory) (owner : InstallLockRecord) : Prop :=
  ∀ name ∈ directory, isStaleCandidate lockPath name = true → name = candidateName lockPath owner.nonce

/-- The record at its name is this one. -/
def Recorded (directory : Directory) (existing : InstallLockRecord) : Prop :=
  ∃ file, directory.lookup (ownerRecordName lockPath) = some file ∧ readText integerOf file.content = .ok existing

def Published (directory : Directory) (process : Installer) (owner : InstallLockRecord) : Prop :=
  directory.lookup (ownerRecordName lockPath) = some (process.file owner.text)

/-- The record at its name is not this process's. -/
def NotMine (directory : Directory) (process : Installer) : Prop :=
  ∀ file owner, directory.lookup (ownerRecordName lockPath) = some file → readText integerOf file.content = .ok owner →
    owner.pid = process.pid → owner.processIdentity ≠ process.processIdentity

/-- The directory as a process inside finds it. -/
def Detail (directory : Directory) (process : Installer) : Stage → Prop
  | .removing _ names => (∀ name ∈ directory, isStaleCandidate lockPath name = true → name ∈ names) ∧ names.Nodup ∧
      ∀ name ∈ names, isStaleCandidate lockPath name = true ∧ name ∈ directory
  | .looking _ => Clean lockPath directory
  | .stating (.archive _) | .reading (.archive _) => Clean lockPath directory ∧ (directory.lookup (ownerRecordName lockPath)).isSome
  | .probing _ existing | .observing _ existing | .archiving _ existing =>
      Clean lockPath directory ∧ Recorded lockPath integerOf directory existing
  | .creating _ _ => Clean lockPath directory ∧ directory.lookup (ownerRecordName lockPath) = none
  | .writing owner _ => OnlyOwn lockPath directory owner ∧ directory.lookup (ownerRecordName lockPath) = none
  | .flushing owner _ | .linking owner _ => OnlyOwn lockPath directory owner ∧ directory.lookup (ownerRecordName lockPath) = none ∧
      directory.lookup (candidateName lockPath owner.nonce) = some (process.file owner.text)
  | .dropping owner _ failure => OnlyOwn lockPath directory owner ∧ (directory.lookup (candidateName lockPath owner.nonce)).isSome ∧
      (failure = none → Published lockPath directory process owner)
  | .holding owner _ | .stating (.release owner) | .reading (.release owner) | .unrecording owner =>
      Clean lockPath directory ∧ Published lockPath directory process owner
  | _ => True

/-- What holds of the shared state: a record is a whole one, of a process that there has been. -/
structure LockSound (shared : LockState) : Prop where
  holder : ∀ pid, shared.holder = some pid → (shared.processes.lookup pid).isSome
  born : ∀ pid identity, shared.processes.lookup pid = some identity → (pid, identity) ∈ shared.born
  record : ∀ file, shared.directory.lookup (ownerRecordName lockPath) = some file → ∃ writer owner, fit writer ∧
    writer.Owns owner ∧ file = writer.file owner.text ∧ (owner.pid, owner.processIdentity) ∈ shared.born

structure Facts (shared : LockState) (process : Installer) : Prop where
  fit : fit process
  running : process.stage.lives = true → shared.processes.lookup process.pid = some process.processIdentity
  holds : process.stage.inside = true → shared.holder = some process.pid
  owns : ∀ owner, process.stage.owner = some owner → process.Owns owner
  error : ∀ error, process.stage.error = some error → error ≠ .ownershipChanged
  detail : process.stage.inside = true → Detail lockPath integerOf shared.directory process process.stage
  gone : ∀ owner existing, process.stage = .archiving owner existing →
    shared.processes.lookup existing.pid ≠ some existing.processIdentity
  fresh : process.stage.isFresh = true → shared.holder ≠ some process.pid ∧ NotMine lockPath integerOf shared.directory process

/-- How the processes and the lock change with a move. -/
inductive Turnover (shared : LockState) (process : Installer) (shared' : LockState) (process' : Installer) : Prop
  | none : shared'.processes = shared.processes → shared'.born = shared.born → process.stage.lives = true →
      Turnover shared process shared' process'
  | started : shared.processes.lookup process.pid = Option.none → (process.pid, process.processIdentity) ∉ shared.born →
      shared'.processes = shared.processes.insert process.pid process.processIdentity →
      shared'.born = (process.pid, process.processIdentity) :: shared.born → Turnover shared process shared' process'
  | exited : shared'.processes = shared.processes.erase process.pid → shared'.born = shared.born → process.stage.lives = true →
      process'.stage = .dead → Turnover shared process shared' process'

/-- What a move may change, seen from outside. -/
structure Effect (shared : LockState) (process : Installer) (shared' : LockState) (process' : Installer) : Prop where
  same : process' = { process with stage := process'.stage }
  directory : shared'.directory = shared.directory ∨ process.stage.inside = true
  record : ∀ file, shared.directory.lookup (ownerRecordName lockPath) = some file →
    shared'.directory.lookup (ownerRecordName lockPath) = some file ∨
      (∃ owner existing, process.stage = .archiving owner existing) ∨ ∃ owner, process.stage = .unrecording owner
  published : ∀ file, shared'.directory.lookup (ownerRecordName lockPath) = some file →
    shared.directory.lookup (ownerRecordName lockPath) = some file ∨
      ∃ owner, process.stage.lives = true ∧ process.Owns owner ∧ file = process.file owner.text
  holder : shared'.holder = shared.holder ∨ (shared.holder = none ∧ shared'.holder = some process.pid) ∨
    (shared.holder = some process.pid ∧ shared'.holder = none)
  turnover : Turnover shared process shared' process'

structure Kept (shared : LockState) (process : Installer) (shared' : LockState) (process' : Installer) : Prop where
  sound : LockSound lockPath fit shared'
  facts : Facts lockPath integerOf fit shared' process'
  effect : Effect lockPath shared process shared' process'

end Knowledge

/-! ## What one answer does -/

section Moves

variable {lockPath : LockPath} {integerOf : List Char → Option Int} {fit : Installer → Prop} {shared shared' : LockState}
  {process process' : Installer} {stage stage' : Stage}

/-- From one stage to the next: nothing is gained but a record of one's own. -/
structure Next (process : Installer) (stage stage' : Stage) : Prop where
  lives : stage.lives = true
  inside : stage'.inside = true → stage.inside = true
  owner : ∀ owner, stage'.owner = some owner → stage.owner = some owner ∨ process.Owns owner
  error : ∀ error, stage'.error = some error → error ≠ .ownershipChanged
  fresh : stage'.isFresh = true → stage.isFresh = true

/-- A process inside changes the directory. -/
theorem change_keeps (stage' : Stage) (hfit : ∀ process stage, fit process → fit { process with stage := stage })
    (hsound : LockSound lockPath fit shared) (hfacts : Facts lockPath integerOf fit shared process) (hstage : process.stage = stage)
    (hnext : Next process stage stage') {directory : Directory} (hinside : stage.inside = true)
    (hpublished : ∀ file, directory.lookup (ownerRecordName lockPath) = some file →
      shared.directory.lookup (ownerRecordName lockPath) = some file ∨ ∃ owner, process.Owns owner ∧ file = process.file owner.text)
    (htaken : ∀ file, shared.directory.lookup (ownerRecordName lockPath) = some file →
      directory.lookup (ownerRecordName lockPath) = some file ∨
        (∃ owner existing, stage = .archiving owner existing) ∨ ∃ owner, stage = .unrecording owner)
    (hdetail : stage'.inside = true → Detail lockPath integerOf directory { process with stage := stage' } stage')
    (hgone : ∀ owner existing, stage' = .archiving owner existing →
      shared.processes.lookup existing.pid ≠ some existing.processIdentity) :
    Kept lockPath integerOf fit shared process { shared with directory := directory } { process with stage := stage' } := by
  subst hstage
  have hrunning := hfacts.running hnext.lives
  refine ⟨⟨hsound.holder, hsound.born, fun file hfile => ?_⟩, ⟨hfit _ _ hfacts.fit, fun _ => hrunning, fun h => hfacts.holds (hnext.inside h),
    fun owner howner => ?_, hnext.error, hdetail, hgone, fun h => ?_⟩, rfl, .inr hinside, htaken, fun file hfile => ?_, .inl rfl,
    .none rfl rfl hnext.lives⟩
  · rcases hpublished file hfile with hold | ⟨owner, howns, hnew⟩
    · exact hsound.record file hold
    · refine ⟨process, owner, hfacts.fit, howns, hnew, ?_⟩
      rw [howns.pid, howns.identity]
      exact hsound.born _ _ hrunning
  · rcases hnext.owner owner howner with hold | hnew
    · have howns := hfacts.owns owner hold
      exact ⟨howns.pid, howns.identity, howns.nonce⟩
    · exact ⟨hnew.pid, hnew.identity, hnew.nonce⟩
  · have hfresh := hnext.fresh h
    cases hstage : process.stage with
    | idle outcome => rw [hstage] at hinside; cases hinside
    | _ => rw [hstage] at hfresh; cases hfresh
  · rcases hpublished file hfile with hold | ⟨owner, howns, hnew⟩
    · exact .inl hold
    · exact .inr ⟨owner, hnext.lives, howns, hnew⟩

/-- Nothing shared changes. -/
theorem goto_keeps (hfit : ∀ process stage, fit process → fit { process with stage := stage })
    (hsound : LockSound lockPath fit shared) (hfacts : Facts lockPath integerOf fit shared process) (hstage : process.stage = stage)
    (hnext : Next process stage stage')
    (hdetail : stage'.inside = true → Detail lockPath integerOf shared.directory { process with stage := stage' } stage')
    (hgone : ∀ owner existing, stage' = .archiving owner existing →
      shared.processes.lookup existing.pid ≠ some existing.processIdentity) :
    Kept lockPath integerOf fit shared process shared { process with stage := stage' } := by
  subst hstage
  refine ⟨hsound, ⟨hfit _ _ hfacts.fit, fun _ => hfacts.running hnext.lives, fun h => hfacts.holds (hnext.inside h),
    fun owner howner => ?_, hnext.error, hdetail, hgone, fun h => hfacts.fresh (hnext.fresh h)⟩, rfl, .inl rfl, fun file hfile => .inl hfile,
    fun file hfile => .inl hfile, .inl rfl, .none rfl rfl hnext.lives⟩
  rcases hnext.owner owner howner with hold | hnew
  · have howns := hfacts.owns owner hold
    exact ⟨howns.pid, howns.identity, howns.nonce⟩
  · exact ⟨hnew.pid, hnew.identity, hnew.nonce⟩

@[simp] theorem releaseBy_directory (shared : LockState) (pid : Nat) : (shared.releaseBy pid).directory = shared.directory := by
  unfold LockState.releaseBy
  split <;> rfl

@[simp] theorem releaseBy_processes (shared : LockState) (pid : Nat) : (shared.releaseBy pid).processes = shared.processes := by
  unfold LockState.releaseBy
  split <;> rfl

@[simp] theorem releaseBy_born (shared : LockState) (pid : Nat) : (shared.releaseBy pid).born = shared.born := by
  unfold LockState.releaseBy
  split <;> rfl

theorem releaseBy_holder (shared : LockState) (pid : Nat) :
    (shared.releaseBy pid).holder ≠ some pid ∧ ((shared.releaseBy pid).holder = shared.holder ∨
      (shared.holder = some pid ∧ (shared.releaseBy pid).holder = none)) := by
  unfold LockState.releaseBy
  by_cases hholder : shared.holder = some pid
  · rw [if_pos hholder]
    exact ⟨by simp, .inr ⟨hholder, rfl⟩⟩
  · rw [if_neg hholder]
    exact ⟨hholder, .inl rfl⟩

/-- The process gives up what transaction it has. -/
theorem release_keeps (hfit : ∀ process stage, fit process → fit { process with stage := stage })
    (hsound : LockSound lockPath fit shared) (hfacts : Facts lockPath integerOf fit shared process) (hstage : process.stage = stage)
    (hnext : Next process stage stage') (houtside : stage'.inside = false) :
    Kept lockPath integerOf fit shared process (shared.releaseBy process.pid) { process with stage := stage' } := by
  have hkept := goto_keeps hfit hsound hfacts hstage hnext (fun h => by rw [houtside] at h; cases h)
    (fun owner existing h => by rw [h] at houtside; cases houtside)
  obtain ⟨-, hholder⟩ := releaseBy_holder shared process.pid
  refine ⟨⟨fun pid h => ?_, ?_, ?_⟩, ⟨hkept.facts.fit, ?_, fun h => ?_, hkept.facts.owns, hkept.facts.error, ?_, ?_, fun h => ?_⟩, rfl, ?_, ?_, ?_, ?_, ?_⟩
  · rw [releaseBy_processes]
    rcases hholder with hsame | ⟨-, hnone⟩
    · exact hsound.holder pid (hsame ▸ h)
    · rw [hnone] at h
      cases h
  · rw [releaseBy_processes, releaseBy_born]
    exact hsound.born
  · rw [releaseBy_directory, releaseBy_born]
    exact hsound.record
  · rw [releaseBy_processes]
    exact hkept.facts.running
  · rw [show Stage.inside _ = stage'.inside from rfl, houtside] at h
    cases h
  · rw [releaseBy_directory]
    exact hkept.facts.detail
  · rw [releaseBy_processes]
    exact hkept.facts.gone
  · rw [releaseBy_directory]
    exact ⟨(releaseBy_holder shared process.pid).1, (hkept.facts.fresh h).2⟩
  · exact .inl (releaseBy_directory _ _)
  · rw [releaseBy_directory]
    exact fun file h => .inl h
  · rw [releaseBy_directory]
    exact fun file h => .inl h
  · rcases hholder with hsame | hreleased
    · exact .inl hsame
    · exact .inr (.inr hreleased)
  · exact .none (releaseBy_processes _ _) (releaseBy_born _ _) (by rw [hstage]; exact hnext.lives)

/-- The process ends. -/
theorem exit_keeps (hfit : ∀ process stage, fit process → fit { process with stage := stage })
    (hsound : LockSound lockPath fit shared) (hfacts : Facts lockPath integerOf fit shared process) (hlives : process.stage.lives = true) :
    Kept lockPath integerOf fit shared process
      { shared.releaseBy process.pid with processes := shared.processes.erase process.pid } { process with stage := .dead } := by
  obtain ⟨hgone, hholder⟩ := releaseBy_holder shared process.pid
  refine ⟨⟨fun pid h => ?_, fun pid identity h => ?_, ?_⟩, ⟨hfit _ _ hfacts.fit, fun h => (nomatch h), fun h => (nomatch h),
    fun owner h => (nomatch h), fun error h => (nomatch h), fun h => (nomatch h), fun owner existing h => (nomatch h),
    fun h => (nomatch h)⟩, rfl, ?_, ?_, ?_, ?_, ?_⟩
  · have hpid : pid ≠ process.pid := fun heq => hgone (heq ▸ h)
    have hold : shared.holder = some pid := by
      rcases hholder with hsame | ⟨-, hnone⟩
      · rw [← hsame]
        exact h
      · exact absurd (hnone.symm.trans h) (by simp)
    show (AList.lookup pid (shared.processes.erase process.pid)).isSome = true
    rw [AList.lookup_erase_ne hpid]
    exact hsound.holder pid hold
  · have h : AList.lookup pid (shared.processes.erase process.pid) = some identity := h
    show (pid, identity) ∈ (shared.releaseBy process.pid).born
    rw [releaseBy_born]
    by_cases hpid : pid = process.pid
    · subst hpid
      rw [AList.lookup_erase] at h
      cases h
    · rw [AList.lookup_erase_ne hpid] at h
      exact hsound.born pid identity h
  · show ∀ file, (shared.releaseBy process.pid).directory.lookup _ = some file → ∃ writer owner, fit writer ∧ writer.Owns owner ∧
      file = writer.file owner.text ∧ (owner.pid, owner.processIdentity) ∈ (shared.releaseBy process.pid).born
    rw [releaseBy_directory, releaseBy_born]
    exact hsound.record
  · exact .inl (releaseBy_directory _ _)
  · intro file h
    left
    show (shared.releaseBy process.pid).directory.lookup _ = _
    rw [releaseBy_directory]
    exact h
  · intro file h
    left
    have h : (shared.releaseBy process.pid).directory.lookup (ownerRecordName lockPath) = some file := h
    rwa [releaseBy_directory] at h
  · rcases hholder with hsame | hreleased
    · exact .inl hsame
    · exact .inr (.inr hreleased)
  · exact .exited rfl (releaseBy_born _ _) hlives rfl

theorem readText_error {content : String} {error : LockError} (h : readText integerOf content = .error error) :
    error ≠ .ownershipChanged := by
  unfold readText at h
  rintro rfl
  split at h
  · cases h
  · split at h <;> cases h

theorem ensureLockDatabaseFile_error {getuid : Option Nat} {failure : Option InstallError} {stats : Except InstallError Stats}
    {error : LockError} (h : ensureLockDatabaseFile getuid failure stats = .error error) : error ≠ .ownershipChanged := by
  rintro rfl
  unfold ensureLockDatabaseFile at h
  repeat' split at h
  all_goals cases h

/-- A call that fails: its error is the one given. -/
theorem Next.failed (hlives : stage.lives = true) {error : LockError} (herror : error ≠ .ownershipChanged) :
    Next process stage (.failed error) :=
  ⟨hlives, fun h => (nomatch h), fun owner h => (nomatch h), fun _ h => by cases h; exact herror, fun h => (nomatch h)⟩

theorem Next.rollingBack (hlives : stage.lives = true) (hinside : stage.inside = true) {error : LockError} (herror : error ≠ .ownershipChanged) :
    Next process stage (.rollingBack error) :=
  ⟨hlives, fun _ => hinside, fun owner h => (nomatch h), fun _ h => by cases h; exact herror, fun h => (nomatch h)⟩

/-- To a stage that throws nothing, by the record the process has. -/
theorem Next.on (hlives : stage.lives = true) (hinside : stage'.inside = true → stage.inside = true)
    (howner : stage'.owner = none ∨ stage'.owner = stage.owner) (hplain : (stage'.error, stage'.isFresh) = (none, false)) :
    Next process stage stage' := by
  obtain ⟨herror, hfresh⟩ := Prod.mk.inj hplain
  refine ⟨hlives, hinside, fun owner h => ?_, fun _ h => (by rw [herror] at h; cases h), fun h => (by rw [hfresh] at h; cases h)⟩
  rcases howner with hnone | hsame
  · rw [hnone] at h
    cases h
  · exact .inl (hsame ▸ h)

section Rules

variable (hfit : ∀ process stage, fit process → fit { process with stage := stage })
  (hsound : LockSound lockPath fit shared) (hfacts : Facts lockPath integerOf fit shared process)

include hfit hsound hfacts

theorem failed_keeps (hstage : process.stage = stage) (hlives : stage.lives = true) {error : LockError} (herror : error ≠ .ownershipChanged) :
    Kept lockPath integerOf fit shared process shared { process with stage := .failed error } :=
  goto_keeps hfit hsound hfacts hstage (.failed hlives herror) (fun h => (nomatch h)) (fun _ _ h => by cases h)

theorem rollingBack_keeps (hstage : process.stage = stage) (hlives : stage.lives = true) (hinside : stage.inside = true) {error : LockError}
    (herror : error ≠ .ownershipChanged) : Kept lockPath integerOf fit shared process shared { process with stage := .rollingBack error } :=
  goto_keeps hfit hsound hfacts hstage (.rollingBack hlives hinside herror) (fun _ => True.intro) (fun _ _ h => by cases h)

/-- `readOwnerRecord` throws, in either of its turns. -/
theorem refused_keeps {purpose : Purpose} (hstage : process.stage = stage) (hlives : stage.lives = true)
    (hinside : purpose ≠ .message → stage.inside = true) {error : LockError} (herror : error ≠ .ownershipChanged) :
    Kept lockPath integerOf fit shared process shared { process with stage := purpose.refused error } := by
  cases purpose with
  | message => exact failed_keeps hfit hsound hfacts hstage hlives (by simp)
  | archive owner => exact rollingBack_keeps hfit hsound hfacts hstage hlives (hinside (by simp)) herror
  | release owner => exact failed_keeps hfit hsound hfacts hstage hlives herror

end Rules

/-! ## Directories -/

theorem unlink_eq_ok {directory directory' : Directory} {name : String} {refused : Option InstallError}
    (h : unlink directory name refused = .ok directory') : (∃ file, directory.lookup name = some file) ∧ directory' = directory.erase name := by
  unfold unlink at h
  split at h
  · cases h
  · cases h
  · next heq =>
    cases h
    exact ⟨⟨_, heq⟩, rfl⟩

/-- A candidate's name comes or goes: the record stays. -/
theorem lookup_candidate (directory : Directory) {name : String} (hname : isStaleCandidate lockPath name = true) (file : OwnerFile) :
    (directory.insert name file).lookup (ownerRecordName lockPath) = directory.lookup (ownerRecordName lockPath) ∧
      (directory.erase name).lookup (ownerRecordName lockPath) = directory.lookup (ownerRecordName lockPath) := by
  have hne : ownerRecordName lockPath ≠ name := (ne_of_stale lockPath hname (owner_not_stale lockPath)).symm
  exact ⟨AList.lookup_insert_ne hne, AList.lookup_erase_ne hne⟩

theorem mem_of_lookup {directory : Directory} {name : String} {file : OwnerFile} (h : directory.lookup name = some file) : name ∈ directory :=
  AList.lookup_isSome.mp (by rw [h]; rfl)

theorem OnlyOwn.insert {directory : Directory} {owner : InstallLockRecord} (h : OnlyOwn lockPath directory owner) (file : OwnerFile) :
    OnlyOwn lockPath (directory.insert (candidateName lockPath owner.nonce) file) owner := by
  intro name hname hstale
  rcases (AList.mem_insert _).mp hname with rfl | hname
  · rfl
  · exact h name hname hstale

theorem Clean.onlyOwn {directory : Directory} (h : Clean lockPath directory) (owner : InstallLockRecord) :
    OnlyOwn lockPath directory owner := by
  intro name hname hstale
  rw [h name hname] at hstale
  cases hstale

theorem OnlyOwn.erase {directory : Directory} {owner : InstallLockRecord} (h : OnlyOwn lockPath directory owner) :
    Clean lockPath (directory.erase (candidateName lockPath owner.nonce)) := by
  intro name hname
  obtain ⟨hne, hname⟩ := AList.mem_erase.mp hname
  rw [Bool.eq_false_iff]
  exact fun hstale => hne (h name hname hstale)

/-! ## One case a stage -/

theorem removeNext_cases (owner : InstallLockRecord) (names : List String) :
    (names = [] ∧ removeNext owner names = .looking owner) ∨ (names ≠ [] ∧ removeNext owner names = .removing owner names) := by
  cases names with
  | nil => exact .inl ⟨rfl, rfl⟩
  | cons name names => exact .inr ⟨by simp, rfl⟩

/-- To the head of the loop over the names. -/
theorem removeNext_next {owner : InstallLockRecord} (hlives : stage.lives = true) (hinside : stage.inside = true)
    (howner : stage.owner = some owner) (names : List String) : Next process stage (removeNext owner names) := by
  cases names with
  | nil => exact .on hlives (fun _ => hinside) (.inr howner.symm) rfl
  | cons name names => exact .on hlives (fun _ => hinside) (.inr howner.symm) rfl

theorem removeNext_detail {directory : Directory} {owner : InstallLockRecord} {names : List String}
    (hall : ∀ name ∈ directory, isStaleCandidate lockPath name = true → name ∈ names) (hnodup : names.Nodup)
    (hnames : ∀ name ∈ names, isStaleCandidate lockPath name = true ∧ name ∈ directory) :
    Detail lockPath integerOf directory process (removeNext owner names) := by
  rcases removeNext_cases owner names with ⟨rfl, hstage⟩ | ⟨-, hstage⟩
  · rw [hstage]
    intro name hname
    rw [Bool.eq_false_iff]
    exact fun hstale => (List.not_mem_nil (hall name hname hstale))
  · rw [hstage]
    exact ⟨hall, hnodup, hnames⟩

theorem removeNext_not_archiving (owner : InstallLockRecord) (names : List String) (o existing : InstallLockRecord) :
    removeNext owner names ≠ .archiving o existing := by
  cases names <;> exact fun h => by cases h

theorem advance_exited (hlives : process.stage.lives = true) : advance lockPath integerOf shared process .exited =
    some ({ shared.releaseBy process.pid with processes := shared.processes.erase process.pid }, { process with stage := .dead }) := by
  unfold advance
  cases hstage : process.stage with
  | unborn | dead => rw [hstage] at hlives; cases hlives
  | _ => rfl

theorem advance_exited_none (hlives : process.stage.lives = false) : advance lockPath integerOf shared process .exited = none := by
  unfold advance
  cases hstage : process.stage with
  | unborn | dead => rfl
  | _ => rw [hstage] at hlives; cases hlives

/-- The process starts. -/
theorem started_keeps (hreads : ReadsNumerals integerOf) (hfit : ∀ process stage, fit process → fit { process with stage := stage })
    (hsound : LockSound lockPath fit shared) (hfacts : Facts lockPath integerOf fit shared process)
    (hfree : shared.processes.lookup process.pid = none) (hfresh : (process.pid, process.processIdentity) ∉ shared.born) :
    Kept lockPath integerOf fit shared process { shared with
      processes := shared.processes.insert process.pid process.processIdentity
      born := (process.pid, process.processIdentity) :: shared.born } { process with stage := .idle none } := by
  refine ⟨⟨fun pid h => ?_, fun pid identity h => ?_, fun file h => ?_⟩, ⟨hfit _ _ hfacts.fit, fun _ => AList.lookup_insert _,
    fun h => (nomatch h), fun owner h => (nomatch h), fun error h => (nomatch h), fun h => (nomatch h), fun owner existing h => (nomatch h),
    fun _ => ⟨fun hheld => ?_, fun file owner hfile htext hpid hidentity => ?_⟩⟩,
    rfl, .inl rfl, fun file h => .inl h, fun file h => .inl h, .inl rfl, .started hfree hfresh rfl rfl⟩
  · have hheld := hsound.holder pid h
    have hpid : pid ≠ process.pid := by
      rintro rfl
      rw [hfree] at hheld
      cases hheld
    show ((shared.processes.insert process.pid process.processIdentity).lookup pid).isSome = true
    rw [AList.lookup_insert_ne hpid]
    exact hheld
  · have h : (shared.processes.insert process.pid process.processIdentity).lookup pid = some identity := h
    by_cases hpid : pid = process.pid
    · subst hpid
      rw [AList.lookup_insert] at h
      cases h
      exact List.mem_cons_self
    · rw [AList.lookup_insert_ne hpid] at h
      exact List.mem_cons_of_mem _ (hsound.born pid identity h)
  · obtain ⟨writer, owner, hwriter, howns, hfile, hborn⟩ := hsound.record file h
    exact ⟨writer, owner, hwriter, howns, hfile, List.mem_cons_of_mem _ hborn⟩
  · have hruns := hsound.holder _ hheld
    rw [hfree] at hruns
    cases hruns
  · obtain ⟨writer, recorded, -, -, rfl, hborn⟩ := hsound.record file hfile
    rw [← readText_eq hreads htext, hpid, hidentity] at hborn
    exact hfresh hborn

/-- The exclusive transaction is given. -/
theorem locked_keeps (hfit : ∀ process stage, fit process → fit { process with stage := stage })
    (hsound : LockSound lockPath fit shared) (hfacts : Facts lockPath integerOf fit shared process) (hstage : process.stage = .beginning)
    (hfree : shared.holder = none) :
    Kept lockPath integerOf fit shared process { shared with holder := some process.pid } { process with stage := .identifying } := by
  have hrunning := hfacts.running (by rw [hstage]; rfl)
  refine ⟨⟨fun pid h => ?_, hsound.born, hsound.record⟩, ⟨hfit _ _ hfacts.fit, fun _ => hrunning, fun _ => rfl,
    fun owner h => (nomatch h), fun error h => (nomatch h), fun _ => True.intro, fun owner existing h => (nomatch h), fun h => (nomatch h)⟩,
    rfl, .inl rfl, fun file h => .inl h, fun file h => .inl h, .inr (.inl ⟨hfree, rfl⟩), .none rfl rfl (by rw [hstage]; rfl)⟩
  cases h
  rw [hrunning]
  rfl

/-- Before the transaction: nothing but the stage changes. -/
theorem advance_keeps_outside (hreads : ReadsNumerals integerOf) (hfit : ∀ process stage, fit process → fit { process with stage := stage })
    (hsound : LockSound lockPath fit shared) (hfacts : Facts lockPath integerOf fit shared process) (houtside : process.stage.inside = false)
    (hmessage : ∀ purpose, process.stage ≠ .stating purpose ∧ process.stage ≠ .reading purpose) {answer : Answer}
    (h : advance lockPath integerOf shared process answer = some (shared', process')) (hexit : answer ≠ .exited) :
    Kept lockPath integerOf fit shared process shared' process' := by
  unfold advance at h
  cases hstage : process.stage with
  | unborn =>
    rw [hstage] at h
    cases answer with
    | started =>
      dsimp only at h
      split at h
      · cases h
      · next hnew =>
        cases h
        rw [not_or] at hnew
        have hfree : shared.processes.lookup process.pid = none := by
          cases hlookup : shared.processes.lookup process.pid with
          | none => rfl
          | some identity => exact absurd (by rw [hlookup]; rfl) hnew.1
        exact started_keeps hreads hfit hsound hfacts hfree hnew.2
    | _ => cases h
  | idle outcome =>
    rw [hstage] at h
    cases answer with
    | collected =>
      cases h
      have hnext : Next process (.idle outcome) (.idle outcome) :=
        ⟨rfl, id, fun _ ho => .inl ho, fun error he => hfacts.error error (by rw [hstage]; exact he), id⟩
      have hkept := release_keeps hfit hsound hfacts hstage hnext rfl
      rw [show ({ process with stage := .idle outcome } : Installer) = process from by rw [← hstage]] at hkept
      exact hkept
    | called =>
      dsimp only at h
      by_cases habsolute : lockPath.isAbsolute = true
      · rw [if_pos habsolute] at h
        cases h
        exact goto_keeps hfit hsound hfacts hstage (.on rfl id (.inl rfl) rfl) (fun h => (nomatch h)) (fun _ _ h => by cases h)
      · rw [if_neg habsolute] at h
        cases h
        exact failed_keeps hfit hsound hfacts hstage rfl (by simp)
    | exited => exact absurd rfl hexit
    | _ => cases h
  | ensuring =>
    rw [hstage] at h
    cases answer with
    | ensured failure stats =>
      dsimp only at h
      cases hensured : ensureLockDatabaseFile process.getuid failure stats with
      | error error =>
        rw [hensured] at h
        cases h
        exact failed_keeps hfit hsound hfacts hstage rfl (ensureLockDatabaseFile_error hensured)
      | ok found =>
        rw [hensured] at h
        cases h
        exact goto_keeps hfit hsound hfacts hstage (.on rfl id (.inl rfl) rfl) (fun h => (nomatch h)) (fun _ _ h => by cases h)
    | exited => exact absurd rfl hexit
    | _ => cases h
  | beginning =>
    rw [hstage] at h
    cases answer with
    | begun failure =>
      dsimp only at h
      by_cases hheld : shared.holder.isSome = true
      · rw [if_pos hheld] at h
        cases h
        exact goto_keeps hfit hsound hfacts hstage (.on rfl id (.inl rfl) rfl) (fun h => (nomatch h)) (fun _ _ h => by cases h)
      · rw [if_neg hheld] at h
        cases failure with
        | some busy =>
          cases h
          exact goto_keeps hfit hsound hfacts hstage (.on rfl id (.inl rfl) rfl) (fun h => (nomatch h)) (fun _ _ h => by cases h)
        | none =>
          cases h
          exact locked_keeps hfit hsound hfacts hstage (by simpa using hheld)
    | exited => exact absurd rfl hexit
    | _ => cases h
  | refusing busy =>
    rw [hstage] at h
    cases answer with
    | closed refused =>
      cases refused with
      | some error =>
        cases h
        exact failed_keeps hfit hsound hfacts hstage rfl (by simp)
      | none =>
        cases busy with
        | true =>
          cases h
          exact goto_keeps hfit hsound hfacts hstage (.on rfl id (.inl rfl) rfl) (fun h => (nomatch h)) (fun _ _ h => by cases h)
        | false =>
          cases h
          exact failed_keeps hfit hsound hfacts hstage rfl (by simp)
    | exited => exact absurd rfl hexit
    | _ => cases h
  | closing commitError =>
    rw [hstage] at h
    have hcommit : ∀ error, commitError = some error → error ≠ .ownershipChanged := by
      rintro error rfl
      exact hfacts.error error (by rw [hstage]; rfl)
    cases answer with
    | closed refused =>
      cases refused with
      | some error =>
        cases h
        refine failed_keeps hfit hsound hfacts hstage rfl ?_
        cases commitError with
        | none => simp
        | some thrown => exact hcommit thrown rfl
      | none =>
        cases commitError with
        | none =>
          cases h
          exact release_keeps hfit hsound hfacts hstage (.on rfl id (.inl rfl) rfl) rfl
        | some thrown =>
          cases h
          exact release_keeps hfit hsound hfacts hstage (.failed rfl (hcommit thrown rfl)) rfl
    | exited => exact absurd rfl hexit
    | _ => cases h
  | aborting error =>
    rw [hstage] at h
    cases answer with
    | closed refused =>
      cases refused with
      | some thrown =>
        cases h
        exact failed_keeps hfit hsound hfacts hstage rfl (by simp)
      | none =>
        cases h
        exact release_keeps hfit hsound hfacts hstage (.failed rfl (hfacts.error error (by rw [hstage]; rfl))) rfl
    | exited => exact absurd rfl hexit
    | _ => cases h
  | stating purpose => exact absurd hstage (hmessage purpose).1
  | reading purpose => exact absurd hstage (hmessage purpose).2
  | dead =>
    rw [hstage] at h
    cases answer <;> cases h
  | _ =>
    rw [hstage] at houtside
    cases houtside

/-- The two turns in which the record is read. -/
theorem advance_keeps_reading (hreads : ReadsNumerals integerOf) (hfit : ∀ process stage, fit process → fit { process with stage := stage })
    (hsound : LockSound lockPath fit shared) (hfacts : Facts lockPath integerOf fit shared process) {purpose : Purpose}
    (hstage : process.stage = .stating purpose ∨ process.stage = .reading purpose) {answer : Answer}
    (h : advance lockPath integerOf shared process answer = some (shared', process')) (hexit : answer ≠ .exited) :
    Kept lockPath integerOf fit shared process shared' process' := by
  have hdetail := hfacts.detail
  unfold advance at h
  rcases hstage with hstage | hstage
  · rw [hstage] at h hdetail
    have hinside : purpose ≠ .message → (Stage.stating purpose).inside = true := by
      intro hpurpose
      cases purpose with
      | message => exact absurd rfl hpurpose
      | archive owner => rfl
      | release owner => rfl
    cases answer with
    | stated refused =>
      dsimp only at h
      cases refused with
      | some error =>
        cases h
        exact refused_keeps hfit hsound hfacts hstage rfl hinside (by simp)
      | none =>
        cases hfile : shared.directory.lookup (ownerRecordName lockPath) with
        | none =>
          rw [hfile] at h
          cases h
          exact refused_keeps hfit hsound hfacts hstage rfl hinside (by simp)
        | some file =>
          rw [hfile] at h
          dsimp only at h
          by_cases hprivate : isPrivateRecord process.getuid file.stats = true
          · rw [if_pos hprivate] at h
            cases h
            cases purpose with
            | message =>
              exact goto_keeps hfit hsound hfacts hstage (.on rfl id (.inl rfl) rfl) (fun h => (nomatch h)) (fun _ _ h => by cases h)
            | archive owner =>
              exact goto_keeps hfit hsound hfacts hstage (.on rfl id (.inr rfl) rfl) (fun _ => hdetail rfl) (fun _ _ h => by cases h)
            | release owner =>
              exact goto_keeps hfit hsound hfacts hstage (.on rfl id (.inr rfl) rfl) (fun _ => hdetail rfl) (fun _ _ h => by cases h)
          · rw [if_neg hprivate] at h
            cases h
            exact refused_keeps hfit hsound hfacts hstage rfl hinside (by simp)
    | exited => exact absurd rfl hexit
    | _ => cases h
  · rw [hstage] at h hdetail
    have hinside : purpose ≠ .message → (Stage.reading purpose).inside = true := by
      intro hpurpose
      cases purpose with
      | message => exact absurd rfl hpurpose
      | archive owner => rfl
      | release owner => rfl
    cases answer with
    | read refused =>
      dsimp only at h
      cases refused with
      | true =>
        cases h
        exact refused_keeps hfit hsound hfacts hstage rfl hinside (by simp)
      | false =>
        cases hfile : shared.directory.lookup (ownerRecordName lockPath) with
        | none =>
          rw [hfile] at h
          cases h
          exact refused_keeps hfit hsound hfacts hstage rfl hinside (by simp)
        | some file =>
          rw [hfile] at h
          dsimp only at h
          cases htext : readText integerOf file.content with
          | error error =>
            rw [htext] at h
            cases h
            exact refused_keeps hfit hsound hfacts hstage rfl hinside (readText_error htext)
          | ok existing =>
            rw [htext] at h
            cases h
            cases purpose with
            | message => exact failed_keeps hfit hsound hfacts hstage rfl (by simp)
            | archive owner =>
              refine goto_keeps hfit hsound hfacts hstage (.on rfl id (.inr rfl) rfl) (fun _ => ?_) (fun _ _ h => by cases h)
              exact ⟨(hdetail rfl).1, file, hfile, htext⟩
            | release owner =>
              -- The record at its name is the process's own, so it reads as that.
              have hown : existing = owner := by
                have hpublished : Published lockPath shared.directory process owner := (hdetail rfl).2
                have hfile' : file = process.file owner.text := Option.some.inj (hfile.symm.trans hpublished)
                rw [hfile'] at htext
                exact readText_eq hreads htext
              show Kept lockPath integerOf fit shared process shared
                { process with stage := if existing = owner then .unrecording owner else .failed .ownershipChanged }
              rw [if_pos hown]
              exact goto_keeps hfit hsound hfacts hstage (.on rfl id (.inr rfl) rfl) (fun _ => hdetail rfl) (fun _ _ h => by cases h)
    | exited => exact absurd rfl hexit
    | _ => cases h

/-- A process inside finds what the record's process has become. -/
theorem archiving_keeps (hfit : ∀ process stage, fit process → fit { process with stage := stage })
    (hsound : LockSound lockPath fit shared) (hfacts : Facts lockPath integerOf fit shared process) {owner existing : InstallLockRecord}
    (hstage : process.stage = .probing owner existing ∨ process.stage = .observing owner existing)
    (hgone : shared.processes.lookup existing.pid ≠ some existing.processIdentity) :
    Kept lockPath integerOf fit shared process shared { process with stage := .archiving owner existing } := by
  have hdetail := hfacts.detail
  rcases hstage with hstage | hstage
  · rw [hstage] at hdetail
    exact goto_keeps hfit hsound hfacts hstage (.on rfl id (.inr rfl) rfl) (fun _ => hdetail rfl) (fun _ _ h => by cases h; exact hgone)
  · rw [hstage] at hdetail
    exact goto_keeps hfit hsound hfacts hstage (.on rfl id (.inr rfl) rfl) (fun _ => hdetail rfl) (fun _ _ h => by cases h; exact hgone)

/-- What a process inside does before it makes its candidate. -/
theorem advance_keeps_recovery (hfit : ∀ process stage, fit process → fit { process with stage := stage })
    (hsound : LockSound lockPath fit shared) (hfacts : Facts lockPath integerOf fit shared process) {answer : Answer}
    (hearly : (∃ owner, process.stage = .listing owner) ∨ (∃ owner names, process.stage = .removing owner names) ∨
      (∃ owner, process.stage = .looking owner) ∨ (∃ owner existing, process.stage = .probing owner existing) ∨
      (∃ owner existing, process.stage = .observing owner existing) ∨ ∃ owner existing, process.stage = .archiving owner existing)
    (h : advance lockPath integerOf shared process answer = some (shared', process')) (hexit : answer ≠ .exited) :
    Kept lockPath integerOf fit shared process shared' process' := by
  have hdetail := hfacts.detail
  unfold advance at h
  rcases hearly with ⟨owner, hstage⟩ | ⟨owner, names, hstage⟩ | ⟨owner, hstage⟩ | ⟨owner, existing, hstage⟩ | ⟨owner, existing, hstage⟩ |
    ⟨owner, existing, hstage⟩
  · rw [hstage] at h hdetail
    cases answer with
    | listed names refused =>
      dsimp only at h
      cases refused with
      | some error =>
        cases h
        exact rollingBack_keeps hfit hsound hfacts hstage rfl rfl (by simp)
      | none =>
        dsimp only at h
        by_cases hnames : names.Perm shared.directory.keys
        · rw [if_pos hnames] at h
          cases h
          refine goto_keeps hfit hsound hfacts hstage (removeNext_next rfl rfl rfl _) (fun _ => removeNext_detail ?_ ?_ ?_)
            (fun _ _ h => absurd h (removeNext_not_archiving _ _ _ _))
          · exact fun name hname hstale => List.mem_filter.mpr ⟨hnames.mem_iff.mpr (AList.mem_keys.mp hname), hstale⟩
          · exact (hnames.nodup_iff.mpr shared.directory.keys_nodup).filter _
          · intro name hname
            obtain ⟨hname, hstale⟩ := List.mem_filter.mp hname
            exact ⟨hstale, AList.mem_keys.mpr (hnames.mem_iff.mp hname)⟩
        · rw [if_neg hnames] at h
          cases h
    | exited => exact absurd rfl hexit
    | _ => cases h
  · rw [hstage] at h hdetail
    cases names with
    | nil =>
      cases answer with
      | exited => exact absurd rfl hexit
      | _ => cases h
    | cons name names =>
      cases answer with
      | unlinked refused =>
        dsimp only at h
        obtain ⟨hall, hnodup, hnames⟩ := hdetail rfl
        obtain ⟨hstale, hpresent⟩ := hnames name List.mem_cons_self
        cases hunlink : unlink shared.directory name refused with
        | error error =>
          rw [hunlink] at h
          cases h
          exact rollingBack_keeps hfit hsound hfacts hstage rfl rfl (by simp)
        | ok directory =>
          rw [hunlink] at h
          cases h
          obtain ⟨⟨file, -⟩, rfl⟩ := unlink_eq_ok hunlink
          have hrecord := (lookup_candidate shared.directory hstale file).2
          refine change_keeps _ hfit hsound hfacts hstage (removeNext_next rfl rfl rfl _) rfl (fun file hfile => .inl (hrecord ▸ hfile))
            (fun file hfile => .inl (hrecord.trans hfile)) (fun _ => removeNext_detail ?_ (List.nodup_cons.mp hnodup).2 ?_)
            (fun _ _ h => absurd h (removeNext_not_archiving _ _ _ _))
          · intro other hother hother'
            obtain ⟨hne, hother⟩ := AList.mem_erase.mp hother
            rcases List.mem_cons.mp (hall other hother hother') with rfl | hrest
            · exact absurd rfl hne
            · exact hrest
          · intro other hother
            obtain ⟨hother', hmem⟩ := hnames other (List.mem_cons_of_mem _ hother)
            refine ⟨hother', AList.mem_erase.mpr ⟨?_, hmem⟩⟩
            rintro rfl
            exact (List.nodup_cons.mp hnodup).1 hother
      | exited => exact absurd rfl hexit
      | _ => cases h
  · rw [hstage] at h hdetail
    cases answer with
    | looked refused =>
      dsimp only at h
      cases refused with
      | some error =>
        dsimp only at h
        split at h
        · cases h
        · cases h
          exact rollingBack_keeps hfit hsound hfacts hstage rfl rfl (by simp)
      | none =>
        dsimp only at h
        by_cases hpresent : (shared.directory.lookup (ownerRecordName lockPath)).isSome = true
        · rw [if_pos hpresent] at h
          cases h
          exact goto_keeps hfit hsound hfacts hstage (.on rfl id (.inr rfl) rfl) (fun _ => ⟨hdetail rfl, hpresent⟩) (fun _ _ h => by cases h)
        · rw [if_neg hpresent] at h
          cases h
          exact goto_keeps hfit hsound hfacts hstage (.on rfl id (.inr rfl) rfl) (fun _ => ⟨hdetail rfl, by simpa using hpresent⟩)
            (fun _ _ h => by cases h)
    | exited => exact absurd rfl hexit
    | _ => cases h
  · rw [hstage] at h hdetail
    cases answer with
    | probed =>
      dsimp only at h
      by_cases halive : (shared.processes.lookup existing.pid).isSome = true
      · rw [if_pos halive] at h
        cases h
        exact goto_keeps hfit hsound hfacts hstage (.on rfl id (.inr rfl) rfl) (fun _ => hdetail rfl) (fun _ _ h => by cases h)
      · rw [if_neg halive] at h
        cases h
        refine archiving_keeps hfit hsound hfacts (.inl hstage) (fun heq => halive ?_)
        rw [heq]
        rfl
    | exited => exact absurd rfl hexit
    | _ => cases h
  · rw [hstage] at h hdetail
    cases answer with
    | observed readable =>
      dsimp only at h
      by_cases hlive : (if readable then shared.processes.lookup existing.pid else none) = none ∨
          (if readable then shared.processes.lookup existing.pid else none) = some existing.processIdentity
      · rw [if_pos hlive] at h
        cases h
        exact rollingBack_keeps hfit hsound hfacts hstage rfl rfl (by simp)
      · rw [if_neg hlive] at h
        cases h
        refine archiving_keeps hfit hsound hfacts (.inr hstage) (fun heq => hlive ?_)
        cases readable with
        | false => exact .inl rfl
        | true => exact .inr heq
    | exited => exact absurd rfl hexit
    | _ => cases h
  · rw [hstage] at h hdetail
    cases answer with
    | archived now refused =>
      dsimp only at h
      cases refused with
      | some error =>
        cases h
        exact rollingBack_keeps hfit hsound hfacts hstage rfl rfl (by simp)
      | none =>
        cases hfile : shared.directory.lookup (ownerRecordName lockPath) with
        | none =>
          rw [hfile] at h
          cases h
          exact rollingBack_keeps hfit hsound hfacts hstage rfl rfl (by simp)
        | some file =>
          rw [hfile] at h
          cases h
          have hne : ownerRecordName lockPath ≠ staleName lockPath now owner.nonce := by
            intro heq
            have hlength := congrArg (fun name : String => name.toList.length) heq
            have htail : (".stale-" : String).toList.length = 7 := rfl
            simp only [staleName, String.toList_append, List.length_append, htail] at hlength
            omega
          have habsent : ((shared.directory.erase (ownerRecordName lockPath)).insert (staleName lockPath now owner.nonce) file).lookup
              (ownerRecordName lockPath) = none := by
            rw [AList.lookup_insert_ne hne, AList.lookup_erase]
          refine change_keeps (.creating owner true) hfit hsound hfacts hstage (.on rfl id (.inr rfl) rfl) rfl
            (fun file hfile => ?_) (fun file hfile => .inr (.inl ⟨owner, existing, rfl⟩)) (fun _ => ⟨?_, habsent⟩) (fun _ _ h => by cases h)
          · rw [habsent] at hfile
            cases hfile
          · intro name hname
            rcases (AList.mem_insert _).mp hname with rfl | hname
            · exact staleName_not_stale lockPath _ _
            · exact (hdetail rfl).1 name (AList.mem_erase.mp hname).2
    | exited => exact absurd rfl hexit
    | _ => cases h

/-- From the candidate to the record. -/
theorem advance_keeps_publication (hfit : ∀ process stage, fit process → fit { process with stage := stage })
    (hsound : LockSound lockPath fit shared) (hfacts : Facts lockPath integerOf fit shared process) {answer : Answer}
    (hlate : (∃ owner recovered, process.stage = .creating owner recovered) ∨ (∃ owner recovered, process.stage = .writing owner recovered) ∨
      (∃ owner recovered, process.stage = .flushing owner recovered) ∨ (∃ owner recovered, process.stage = .linking owner recovered) ∨
      ∃ owner recovered failure, process.stage = .dropping owner recovered failure)
    (h : advance lockPath integerOf shared process answer = some (shared', process')) (hexit : answer ≠ .exited) :
    Kept lockPath integerOf fit shared process shared' process' := by
  have hdetail := hfacts.detail
  have howns := hfacts.owns
  unfold advance at h
  rcases hlate with ⟨owner, recovered, hstage⟩ | ⟨owner, recovered, hstage⟩ | ⟨owner, recovered, hstage⟩ | ⟨owner, recovered, hstage⟩ |
    ⟨owner, recovered, failure, hstage⟩
  · rw [hstage] at h hdetail howns
    obtain ⟨hclean, habsent⟩ := hdetail rfl
    have hstale := candidate_isStale lockPath (howns owner rfl).nonce
    cases answer with
    | created refused =>
      dsimp only at h
      cases refused with
      | some error =>
        cases h
        exact rollingBack_keeps hfit hsound hfacts hstage rfl rfl (by simp)
      | none =>
        cases hfile : shared.directory.lookup (candidateName lockPath owner.nonce) with
        | some file =>
          rw [hfile] at h
          cases h
          exact rollingBack_keeps hfit hsound hfacts hstage rfl rfl (by simp)
        | none =>
          rw [hfile] at h
          cases h
          have hrecord := (lookup_candidate shared.directory hstale (process.file "")).1
          exact change_keeps (.writing owner recovered) hfit hsound hfacts hstage (.on rfl id (.inr rfl) rfl) rfl
            (fun file hfile => .inl (hrecord ▸ hfile)) (fun file hfile => .inl (hrecord.trans hfile))
            (fun _ => ⟨(hclean.onlyOwn owner).insert _, hrecord.trans habsent⟩) (fun _ _ h => by cases h)
    | exited => exact absurd rfl hexit
    | _ => cases h
  · rw [hstage] at h hdetail howns
    obtain ⟨honly, habsent⟩ := hdetail rfl
    have hstale := candidate_isStale lockPath (howns owner rfl).nonce
    cases answer with
    | wrote cut refused =>
      cases refused with
      | some error =>
        cases h
        have hrecord := (lookup_candidate shared.directory hstale (process.file cut)).1
        exact change_keeps (.rollingBack (.system error)) hfit hsound hfacts hstage (.rollingBack rfl rfl (by simp)) rfl
          (fun file hfile => .inl (hrecord ▸ hfile)) (fun file hfile => .inl (hrecord.trans hfile)) (fun _ => True.intro)
          (fun _ _ h => by cases h)
      | none =>
        cases h
        have hrecord := (lookup_candidate shared.directory hstale (process.file owner.text)).1
        exact change_keeps (.flushing owner recovered) hfit hsound hfacts hstage (.on rfl id (.inr rfl) rfl) rfl
          (fun file hfile => .inl (hrecord ▸ hfile)) (fun file hfile => .inl (hrecord.trans hfile))
          (fun _ => ⟨honly.insert _, hrecord.trans habsent, AList.lookup_insert _⟩) (fun _ _ h => by cases h)
    | exited => exact absurd rfl hexit
    | _ => cases h
  · rw [hstage] at h hdetail
    cases answer with
    | flushed refused =>
      cases refused with
      | some error =>
        cases h
        exact rollingBack_keeps hfit hsound hfacts hstage rfl rfl (by simp)
      | none =>
        cases h
        exact goto_keeps hfit hsound hfacts hstage (.on rfl id (.inr rfl) rfl) (fun _ => hdetail rfl) (fun _ _ h => by cases h)
    | exited => exact absurd rfl hexit
    | _ => cases h
  · rw [hstage] at h hdetail howns
    obtain ⟨honly, habsent, hcandidate⟩ := hdetail rfl
    have hpresent : (shared.directory.lookup (candidateName lockPath owner.nonce)).isSome = true := by
      rw [hcandidate]
      rfl
    cases answer with
    | linked refused =>
      dsimp only at h
      cases refused with
      | some error =>
        cases h
        exact goto_keeps hfit hsound hfacts hstage ⟨rfl, id, fun _ ho => .inl ho, fun _ he => by cases he; simp, fun h => (nomatch h)⟩
          (fun _ => ⟨honly, hpresent, fun hnone => (nomatch hnone)⟩) (fun _ _ h => by cases h)
      | none =>
        rw [hcandidate, habsent] at h
        cases h
        have hne : candidateName lockPath owner.nonce ≠ ownerRecordName lockPath :=
          ne_of_stale lockPath (candidate_isStale lockPath (howns owner rfl).nonce) (owner_not_stale lockPath)
        refine change_keeps (.dropping owner recovered none) hfit hsound hfacts hstage (.on rfl id (.inr rfl) rfl) rfl
          (fun file hfile => .inr ⟨owner, howns owner rfl, ?_⟩) (fun file hfile => ?_) (fun _ => ⟨?_, ?_, fun _ => AList.lookup_insert _⟩)
          (fun _ _ h => by cases h)
        · rw [AList.lookup_insert] at hfile
          exact (Option.some.inj hfile).symm
        · rw [habsent] at hfile
          cases hfile
        · intro name hname hname'
          rcases (AList.mem_insert _).mp hname with rfl | hname
          · rw [owner_not_stale] at hname'
            cases hname'
          · exact honly name hname hname'
        · rw [AList.lookup_insert_ne hne]
          exact hpresent
    | exited => exact absurd rfl hexit
    | _ => cases h
  · rw [hstage] at h hdetail howns
    obtain ⟨honly, hpresent, hpublished⟩ := hdetail rfl
    have hstale := candidate_isStale lockPath (howns owner rfl).nonce
    cases answer with
    | unlinked refused =>
      dsimp only at h
      cases hunlink : unlink shared.directory (candidateName lockPath owner.nonce) refused with
      | error error =>
        rw [hunlink] at h
        cases h
        exact rollingBack_keeps hfit hsound hfacts hstage rfl rfl (by simp)
      | ok directory =>
        rw [hunlink] at h
        obtain ⟨⟨file, -⟩, rfl⟩ := unlink_eq_ok hunlink
        have hrecord := (lookup_candidate shared.directory hstale file).2
        cases failure with
        | some error =>
          cases h
          exact change_keeps (.rollingBack error) hfit hsound hfacts hstage
            (.rollingBack rfl rfl (hfacts.error error (by rw [hstage]; rfl))) rfl
            (fun file hfile => .inl (hrecord ▸ hfile)) (fun file hfile => .inl (hrecord.trans hfile)) (fun _ => True.intro)
            (fun _ _ h => by cases h)
        | none =>
          cases h
          exact change_keeps (.holding owner recovered) hfit hsound hfacts hstage (.on rfl id (.inr rfl) rfl) rfl
            (fun file hfile => .inl (hrecord ▸ hfile)) (fun file hfile => .inl (hrecord.trans hfile))
            (fun _ => ⟨honly.erase, hrecord.trans (hpublished rfl)⟩) (fun _ _ h => by cases h)
    | exited => exact absurd rfl hexit
    | _ => cases h

/-- The rest of a process inside: its record is drawn up, the lock is held, released or given up. -/
theorem advance_keeps_holding (hfit : ∀ process stage, fit process → fit { process with stage := stage })
    (hsound : LockSound lockPath fit shared) (hfacts : Facts lockPath integerOf fit shared process) {answer : Answer}
    (hrest : process.stage = .identifying ∨ (∃ owner recovered, process.stage = .holding owner recovered) ∨
      (∃ owner, process.stage = .unrecording owner) ∨ process.stage = .committing ∨ ∃ error, process.stage = .rollingBack error)
    (h : advance lockPath integerOf shared process answer = some (shared', process')) (hexit : answer ≠ .exited) :
    Kept lockPath integerOf fit shared process shared' process' := by
  have hdetail := hfacts.detail
  unfold advance at h
  rcases hrest with hstage | ⟨owner, recovered, hstage⟩ | ⟨owner, hstage⟩ | hstage | ⟨error, hstage⟩
  · rw [hstage] at h
    cases answer with
    | identified nonce readable =>
      dsimp only at h
      by_cases hnonce : isLowerHex 32 nonce.toList = true
      · rw [if_pos hnonce] at h
        cases readable with
        | true =>
          cases h
          exact goto_keeps hfit hsound hfacts hstage ⟨rfl, id, fun _ ho => .inr (by cases ho; exact ⟨rfl, rfl, hnonce⟩), fun _ he => (nomatch he),
              fun h => (nomatch h)⟩
            (fun _ => True.intro) (fun _ _ h => by cases h)
        | false =>
          cases h
          exact failed_keeps hfit hsound hfacts hstage rfl (by simp)
      · rw [if_neg hnonce] at h
        cases h
    | exited => exact absurd rfl hexit
    | _ => cases h
  · rw [hstage] at h hdetail
    cases answer with
    | releasing =>
      cases h
      exact goto_keeps hfit hsound hfacts hstage (.on rfl id (.inr rfl) rfl) (fun _ => hdetail rfl) (fun _ _ h => by cases h)
    | exited => exact absurd rfl hexit
    | _ => cases h
  · rw [hstage] at h
    cases answer with
    | unlinked refused =>
      dsimp only at h
      cases hunlink : unlink shared.directory (ownerRecordName lockPath) refused with
      | error error =>
        rw [hunlink] at h
        cases h
        exact failed_keeps hfit hsound hfacts hstage rfl (by simp)
      | ok directory =>
        rw [hunlink] at h
        cases h
        obtain ⟨-, rfl⟩ := unlink_eq_ok hunlink
        refine change_keeps .committing hfit hsound hfacts hstage (.on rfl id (.inl rfl) rfl) rfl (fun file hfile => ?_)
          (fun file _ => .inr (.inr ⟨owner, rfl⟩)) (fun _ => True.intro) (fun _ _ h => by cases h)
        rw [AList.lookup_erase] at hfile
        cases hfile
    | exited => exact absurd rfl hexit
    | _ => cases h
  · rw [hstage] at h
    cases answer with
    | committed refused =>
      cases refused with
      | some error =>
        cases h
        exact goto_keeps hfit hsound hfacts hstage ⟨rfl, fun h => (nomatch h), fun _ ho => (nomatch ho), fun _ he => by cases he; simp,
            fun h => (nomatch h)⟩
          (fun h => (nomatch h)) (fun _ _ h => by cases h)
      | none =>
        cases h
        exact release_keeps hfit hsound hfacts hstage (.on rfl (fun h => (nomatch h)) (.inl rfl) rfl) rfl
    | exited => exact absurd rfl hexit
    | _ => cases h
  · rw [hstage] at h
    have herror : error ≠ .ownershipChanged := hfacts.error error (by rw [hstage]; rfl)
    have hnext : Next process (.rollingBack error) (.aborting error) :=
      ⟨rfl, fun h => (nomatch h), fun _ ho => (nomatch ho), fun _ he => by cases he; exact herror, fun h => (nomatch h)⟩
    cases answer with
    | rolledBack refused =>
      cases refused with
      | true =>
        cases h
        exact goto_keeps hfit hsound hfacts hstage hnext (fun h => (nomatch h)) (fun _ _ h => by cases h)
      | false =>
        cases h
        exact release_keeps hfit hsound hfacts hstage hnext rfl
    | exited => exact absurd rfl hexit
    | _ => cases h

theorem advance_keeps (hreads : ReadsNumerals integerOf) (hfit : ∀ process stage, fit process → fit { process with stage := stage })
    (hsound : LockSound lockPath fit shared) (hfacts : Facts lockPath integerOf fit shared process) {answer : Answer}
    (h : advance lockPath integerOf shared process answer = some (shared', process')) :
    Kept lockPath integerOf fit shared process shared' process' := by
  by_cases hexit : answer = .exited
  · subst hexit
    cases hlives : process.stage.lives with
    | false =>
      rw [advance_exited_none hlives] at h
      cases h
    | true =>
      rw [advance_exited hlives] at h
      cases h
      exact exit_keeps hfit hsound hfacts hlives
  · cases hstage : process.stage with
    | stating purpose => exact advance_keeps_reading hreads hfit hsound hfacts (.inl hstage) h hexit
    | reading purpose => exact advance_keeps_reading hreads hfit hsound hfacts (.inr hstage) h hexit
    | listing owner => exact advance_keeps_recovery hfit hsound hfacts (.inl ⟨_, hstage⟩) h hexit
    | removing owner names => exact advance_keeps_recovery hfit hsound hfacts (.inr (.inl ⟨_, _, hstage⟩)) h hexit
    | looking owner => exact advance_keeps_recovery hfit hsound hfacts (.inr (.inr (.inl ⟨_, hstage⟩))) h hexit
    | probing owner existing => exact advance_keeps_recovery hfit hsound hfacts (.inr (.inr (.inr (.inl ⟨_, _, hstage⟩)))) h hexit
    | observing owner existing => exact advance_keeps_recovery hfit hsound hfacts (.inr (.inr (.inr (.inr (.inl ⟨_, _, hstage⟩))))) h hexit
    | archiving owner existing => exact advance_keeps_recovery hfit hsound hfacts (.inr (.inr (.inr (.inr (.inr ⟨_, _, hstage⟩))))) h hexit
    | creating owner recovered => exact advance_keeps_publication hfit hsound hfacts (.inl ⟨_, _, hstage⟩) h hexit
    | writing owner recovered => exact advance_keeps_publication hfit hsound hfacts (.inr (.inl ⟨_, _, hstage⟩)) h hexit
    | flushing owner recovered => exact advance_keeps_publication hfit hsound hfacts (.inr (.inr (.inl ⟨_, _, hstage⟩))) h hexit
    | linking owner recovered => exact advance_keeps_publication hfit hsound hfacts (.inr (.inr (.inr (.inl ⟨_, _, hstage⟩)))) h hexit
    | dropping owner recovered failure =>
      exact advance_keeps_publication hfit hsound hfacts (.inr (.inr (.inr (.inr ⟨_, _, _, hstage⟩)))) h hexit
    | identifying => exact advance_keeps_holding hfit hsound hfacts (.inl hstage) h hexit
    | holding owner recovered => exact advance_keeps_holding hfit hsound hfacts (.inr (.inl ⟨_, _, hstage⟩)) h hexit
    | unrecording owner => exact advance_keeps_holding hfit hsound hfacts (.inr (.inr (.inl ⟨_, hstage⟩))) h hexit
    | committing => exact advance_keeps_holding hfit hsound hfacts (.inr (.inr (.inr (.inl hstage)))) h hexit
    | rollingBack error => exact advance_keeps_holding hfit hsound hfacts (.inr (.inr (.inr (.inr ⟨_, hstage⟩)))) h hexit
    | _ =>
      refine advance_keeps_outside hreads hfit hsound hfacts (by rw [hstage]; rfl) (fun purpose => ?_) h hexit
      rw [hstage]
      exact ⟨fun heq => (nomatch heq), fun heq => (nomatch heq)⟩

end Moves

end GitCommitsPush.Installation
