/-
  GitCommitsPush.Installation.LockRecovery — what crashed installers leave behind is no obstacle.

  A process that has just started and runs alone acquires the lock, whatever its predecessors left
  and wherever they ended, if the system refuses it nothing:
  - `acquiring_step`: each answer takes the call on, and never to an error.
  - `acquiring_goes_on`: until the lock is held there is such an answer.
  - `lone_installer_acquires`: so the lock is held after so many answers as there are names left and
    sixteen more.
-/

import GitCommitsPush.Installation.LockHolder

namespace GitCommitsPush.Installation

open GitCommitsPush.Lib.FlatObject
open GitCommitsPush.Lib.Interleaving
open GitCommitsPush.Lib.JsText
open GitCommitsPush.Lib.Runs
open GitCommitsPush.Lib.Sharing

/-- The system does what it is asked: for `ensured`, a private file is there. -/
def Granted (process : Installer) : Answer → Prop
  | .called | .probed => True
  | .ensured failure stats => ensureLockDatabaseFile process.getuid failure stats = .ok ()
  | .begun failure => failure = none
  | .identified _ readable | .observed readable => readable = true
  | .read refused => refused = false
  | .listed _ refused | .looked refused | .stated refused | .archived _ refused | .created refused | .wrote _ refused | .flushed refused
  | .linked refused | .unlinked refused => refused = none
  | _ => False

section Acquiring

variable (lockPath : LockPath) (integerOf : List Char → Option Int)

/-- A call on its way to the lock: `present` says whether there was a record. -/
def Acquiring (present : Bool) (shared : LockState) (process : Installer) : Prop := match process.stage with
  | .idle none | .ensuring | .beginning => shared.holder = none ∧ NotMine lockPath integerOf shared.directory process ∧
      (shared.directory.lookup (ownerRecordName lockPath)).isSome = present
  | .identifying | .listing _ | .looking _ => NotMine lockPath integerOf shared.directory process ∧
      (shared.directory.lookup (ownerRecordName lockPath)).isSome = present
  | .removing _ names => NotMine lockPath integerOf shared.directory process ∧
      (shared.directory.lookup (ownerRecordName lockPath)).isSome = present ∧ names ≠ []
  | .stating (.archive _) | .reading (.archive _) | .probing _ _ => NotMine lockPath integerOf shared.directory process ∧ present = true
  | .observing _ existing => NotMine lockPath integerOf shared.directory process ∧ present = true ∧
      (shared.processes.lookup existing.pid).isSome = true
  | .archiving _ _ => present = true
  | .creating _ recovered | .writing _ recovered | .flushing _ recovered | .linking _ recovered | .dropping _ recovered none
  | .holding _ recovered => recovered = present
  | _ => False

/-- What is left of a call. -/
def Stage.left (directory : Directory) : Stage → Nat
  | .idle none => directory.keys.length + 17
  | .ensuring => directory.keys.length + 16
  | .beginning => directory.keys.length + 15
  | .identifying => directory.keys.length + 14
  | .listing _ => directory.keys.length + 13
  | .removing _ names => names.length + 12
  | .looking _ => 12
  | .stating _ => 11
  | .reading _ => 10
  | .probing _ _ => 9
  | .observing _ _ => 8
  | .archiving _ _ => 7
  | .creating _ _ => 6
  | .writing _ _ => 5
  | .flushing _ _ => 4
  | .linking _ _ => 3
  | .dropping _ _ _ => 2
  | _ => 1

/-- Nobody else runs. -/
def Alone (shared : LockState) (process : Installer) : Prop :=
  ∀ pid, (shared.processes.lookup pid).isSome = true → pid = process.pid

end Acquiring

section Steps

variable {lockPath : LockPath} {integerOf : List Char → Option Int} {uid : Nat} {present : Bool} {shared shared' : LockState}
  {process process' : Installer} {answer : Answer}

/-- The answer takes the call on. -/
structure Onward (lockPath : LockPath) (integerOf : List Char → Option Int) (present : Bool) (shared : LockState) (process : Installer)
    (shared' : LockState) (process' : Installer) : Prop where
  acquiring : Acquiring lockPath integerOf present shared' process'
  left : process'.stage.left shared'.directory < process.stage.left shared.directory
  processes : shared'.processes = shared.processes

theorem removeNext_onward (shared : LockState) (process : Installer) {directory : Directory} (owner : InstallLockRecord) (names : List String)
    (hmine : NotMine lockPath integerOf directory process) (hpresent : (directory.lookup (ownerRecordName lockPath)).isSome = present) :
    Acquiring lockPath integerOf present { shared with directory := directory } { process with stage := removeNext owner names } ∧
      (removeNext owner names).left directory ≤ names.length + 12 := by
  cases names with
  | nil => exact ⟨⟨hmine, hpresent⟩, Nat.le_refl _⟩
  | cons name names => exact ⟨⟨hmine, hpresent, by simp⟩, Nat.le_refl _⟩

/-- A call that has nothing open yet. -/
theorem acquiring_step_outside (habsolute : lockPath.isAbsolute = true)
    (hacquiring : Acquiring lockPath integerOf present shared process) (hgranted : Granted process answer)
    (hearly : process.stage = .idle none ∨ process.stage = .ensuring ∨ process.stage = .beginning ∨ process.stage = .identifying ∨
      ∃ owner, process.stage = .listing owner)
    (h : advance lockPath integerOf shared process answer = some (shared', process')) :
    Onward lockPath integerOf present shared process shared' process' := by
  unfold Acquiring at hacquiring
  unfold advance at h
  rcases hearly with hstage | hstage | hstage | hstage | ⟨owner, hstage⟩
  · rw [hstage] at h hacquiring
    cases answer with
    | called =>
      dsimp only at h
      rw [if_pos habsolute] at h
      cases h
      exact ⟨hacquiring, by rw [hstage]; exact Nat.lt_succ_self _, rfl⟩
    | collected | exited => cases hgranted
    | _ => cases h
  · rw [hstage] at h hacquiring
    cases answer with
    | ensured failure stats =>
      have hensured : ensureLockDatabaseFile process.getuid failure stats = .ok () := hgranted
      dsimp only at h
      rw [hensured] at h
      cases h
      exact ⟨hacquiring, by rw [hstage]; exact Nat.lt_succ_self _, rfl⟩
    | exited => cases hgranted
    | _ => cases h
  · rw [hstage] at h hacquiring
    obtain ⟨hfree, hmine, hpresent⟩ := hacquiring
    cases answer with
    | begun failure =>
      have hfailure : failure = none := hgranted
      subst hfailure
      dsimp only at h
      rw [if_neg (by rw [hfree]; simp)] at h
      cases h
      exact ⟨⟨hmine, hpresent⟩, by rw [hstage]; exact Nat.lt_succ_self _, rfl⟩
    | exited => cases hgranted
    | _ => cases h
  · rw [hstage] at h hacquiring
    cases answer with
    | identified nonce readable =>
      have hreadable : readable = true := hgranted
      subst hreadable
      dsimp only at h
      split at h
      · cases h
        exact ⟨hacquiring, by rw [hstage]; exact Nat.lt_succ_self _, rfl⟩
      · cases h
    | exited => cases hgranted
    | _ => cases h
  · rw [hstage] at h hacquiring
    cases answer with
    | listed names refused =>
      have hrefused : refused = none := hgranted
      subst hrefused
      dsimp only at h
      by_cases hnames : names.Perm shared.directory.keys
      · rw [if_pos hnames] at h
        cases h
        obtain ⟨honward, hleft⟩ := removeNext_onward shared process owner
          (names.filter (isStaleCandidate lockPath)) hacquiring.1 hacquiring.2
        refine ⟨honward, ?_, rfl⟩
        have hfilter : (names.filter (isStaleCandidate lockPath)).length ≤ shared.directory.keys.length :=
          (List.length_filter_le _ _).trans (Nat.le_of_eq hnames.length_eq)
        rw [hstage]
        show (removeNext owner _).left shared.directory < shared.directory.keys.length + 13
        omega
      · rw [if_neg hnames] at h
        cases h
    | exited => cases hgranted
    | _ => cases h

/-- A call that makes way for its record. -/
theorem acquiring_step_recovery (hreads : ReadsNumerals integerOf) (hsound : LockSound lockPath (Installer.Fit uid) shared)
    (hfacts : Facts lockPath integerOf (Installer.Fit uid) shared process) (hgetuid : process.getuid = none ∨ process.getuid = some uid)
    (halone : Alone shared process) (hacquiring : Acquiring lockPath integerOf present shared process) (hgranted : Granted process answer)
    (hlate : (∃ owner names, process.stage = .removing owner names) ∨ (∃ owner, process.stage = .looking owner) ∨
      (∃ owner, process.stage = .stating (.archive owner)) ∨ (∃ owner, process.stage = .reading (.archive owner)) ∨
      (∃ owner existing, process.stage = .probing owner existing) ∨ (∃ owner existing, process.stage = .observing owner existing) ∨
      ∃ owner existing, process.stage = .archiving owner existing)
    (h : advance lockPath integerOf shared process answer = some (shared', process')) :
    Onward lockPath integerOf present shared process shared' process' := by
  have hdetail := hfacts.detail
  unfold Acquiring at hacquiring
  unfold advance at h
  rcases hlate with ⟨owner, names, hstage⟩ | ⟨owner, hstage⟩ | ⟨owner, hstage⟩ | ⟨owner, hstage⟩ | ⟨owner, existing, hstage⟩ |
    ⟨owner, existing, hstage⟩ | ⟨owner, existing, hstage⟩
  · rw [hstage] at h hacquiring hdetail
    obtain ⟨hmine, hpresent, hne⟩ := hacquiring
    cases names with
    | nil => exact absurd rfl hne
    | cons name names =>
      cases answer with
      | unlinked refused =>
        have hrefused : refused = none := hgranted
        subst hrefused
        obtain ⟨-, -, hnames⟩ := hdetail rfl
        obtain ⟨hstale, hmem⟩ := hnames name List.mem_cons_self
        obtain ⟨file, hfile⟩ := Option.isSome_iff_exists.mp (AList.lookup_isSome.mpr hmem)
        have hunlink : unlink shared.directory name none = .ok (shared.directory.erase name) := by
          unfold unlink
          rw [hfile]
        dsimp only at h
        rw [hunlink] at h
        cases h
        have hrecord := (lookup_candidate shared.directory hstale file).2
        have hmine' : NotMine lockPath integerOf (shared.directory.erase name) process :=
          fun file owner hfile => hmine file owner (hrecord ▸ hfile)
        obtain ⟨honward, hleft⟩ := removeNext_onward shared process owner names hmine'
          (hrecord.symm ▸ hpresent)
        refine ⟨honward, ?_, rfl⟩
        rw [hstage]
        show (removeNext owner names).left (shared.directory.erase name) < (names.length + 1) + 12
        omega
      | exited => cases hgranted
      | _ => cases h
  · rw [hstage] at h hacquiring
    obtain ⟨hmine, hpresent⟩ := hacquiring
    cases answer with
    | looked refused =>
      have hrefused : refused = none := hgranted
      subst hrefused
      dsimp only at h
      by_cases hsome : (shared.directory.lookup (ownerRecordName lockPath)).isSome = true
      · rw [if_pos hsome] at h
        cases h
        exact ⟨⟨hmine, hpresent.symm.trans hsome⟩, by rw [hstage]; exact Nat.lt_succ_self _, rfl⟩
      · rw [if_neg hsome] at h
        cases h
        refine ⟨?_, ?_, rfl⟩
        · show false = present
          rw [← hpresent]
          simpa using hsome
        · rw [hstage]
          show 6 < 12
          omega
    | exited => cases hgranted
    | _ => cases h
  · rw [hstage] at h hacquiring hdetail
    cases answer with
    | stated refused =>
      have hrefused : refused = none := hgranted
      subst hrefused
      obtain ⟨file, hfile⟩ := Option.isSome_iff_exists.mp (hdetail rfl).2
      dsimp only at h
      rw [hfile] at h
      dsimp only at h
      rw [if_pos (hsound.whole hreads hgetuid hfile).1] at h
      cases h
      exact ⟨hacquiring, by rw [hstage]; exact Nat.lt_succ_self _, rfl⟩
    | exited => cases hgranted
    | _ => cases h
  · rw [hstage] at h hacquiring hdetail
    cases answer with
    | read refused =>
      have hrefused : refused = false := hgranted
      subst hrefused
      obtain ⟨file, hfile⟩ := Option.isSome_iff_exists.mp (hdetail rfl).2
      obtain ⟨-, existing, htext, -⟩ := hsound.whole hreads hgetuid hfile
      dsimp only at h
      rw [hfile] at h
      dsimp only at h
      rw [htext] at h
      cases h
      exact ⟨hacquiring, by rw [hstage]; exact Nat.lt_succ_self _, rfl⟩
    | exited => cases hgranted
    | _ => cases h
  · rw [hstage] at h hacquiring
    cases answer with
    | probed =>
      dsimp only at h
      by_cases halive : (shared.processes.lookup existing.pid).isSome = true
      · rw [if_pos halive] at h
        cases h
        exact ⟨⟨hacquiring.1, hacquiring.2, halive⟩, by rw [hstage]; exact Nat.lt_succ_self _, rfl⟩
      · rw [if_neg halive] at h
        cases h
        refine ⟨hacquiring.2, ?_, rfl⟩
        rw [hstage]
        show 7 < 9
        omega
    | exited => cases hgranted
    | _ => cases h
  · rw [hstage] at h hacquiring hdetail
    cases answer with
    | observed readable =>
      have hreadable : readable = true := hgranted
      subst hreadable
      obtain ⟨hmine, hpresent, halive⟩ := hacquiring
      obtain ⟨-, file, hfile, htext⟩ := hdetail rfl
      -- The number is in use again, by this very process, and its start is another.
      have hpid : existing.pid = process.pid := halone existing.pid halive
      have hrunning := hfacts.running (by rw [hstage]; rfl)
      have hother : existing.processIdentity ≠ process.processIdentity := hmine file existing hfile htext hpid
      have hnot : ¬((if true = true then shared.processes.lookup existing.pid else none) = none ∨
          (if true = true then shared.processes.lookup existing.pid else none) = some existing.processIdentity) := by
        rw [if_pos rfl, hpid, hrunning]
        rintro (hnone | hsame)
        · cases hnone
        · exact hother (Option.some.inj hsame).symm
      dsimp only at h
      rw [if_neg hnot] at h
      cases h
      exact ⟨hpresent, by rw [hstage]; exact Nat.lt_succ_self _, rfl⟩
    | exited => cases hgranted
    | _ => cases h
  · rw [hstage] at h hacquiring hdetail
    cases answer with
    | archived now refused =>
      have hrefused : refused = none := hgranted
      subst hrefused
      obtain ⟨-, file, hfile, -⟩ := hdetail rfl
      dsimp only at h
      rw [hfile] at h
      cases h
      exact ⟨hacquiring.symm, by rw [hstage]; exact Nat.lt_succ_self _, rfl⟩
    | exited => cases hgranted
    | _ => cases h

/-- A call that writes its record. -/
theorem acquiring_step_publication (hfacts : Facts lockPath integerOf (Installer.Fit uid) shared process)
    (hacquiring : Acquiring lockPath integerOf present shared process) (hgranted : Granted process answer)
    (hlast : (∃ owner recovered, process.stage = .creating owner recovered) ∨ (∃ owner recovered, process.stage = .writing owner recovered) ∨
      (∃ owner recovered, process.stage = .flushing owner recovered) ∨ (∃ owner recovered, process.stage = .linking owner recovered) ∨
      ∃ owner recovered, process.stage = .dropping owner recovered none)
    (h : advance lockPath integerOf shared process answer = some (shared', process')) :
    Onward lockPath integerOf present shared process shared' process' := by
  have hdetail := hfacts.detail
  have howns := hfacts.owns
  unfold Acquiring at hacquiring
  unfold advance at h
  rcases hlast with ⟨owner, recovered, hstage⟩ | ⟨owner, recovered, hstage⟩ | ⟨owner, recovered, hstage⟩ | ⟨owner, recovered, hstage⟩ |
    ⟨owner, recovered, hstage⟩
  · rw [hstage] at h hacquiring hdetail howns
    cases answer with
    | created refused =>
      have hrefused : refused = none := hgranted
      subst hrefused
      -- No candidate is left, so the name is free.
      have habsent : shared.directory.lookup (candidateName lockPath owner.nonce) = none := by
        cases hfile : shared.directory.lookup (candidateName lockPath owner.nonce) with
        | none => rfl
        | some file =>
          have hclean := (hdetail rfl).1 _ (mem_of_lookup hfile)
          rw [candidate_isStale lockPath (howns owner rfl).nonce] at hclean
          cases hclean
      dsimp only at h
      rw [habsent] at h
      cases h
      exact ⟨hacquiring, by rw [hstage]; exact Nat.lt_succ_self _, rfl⟩
    | exited => cases hgranted
    | _ => cases h
  · rw [hstage] at h hacquiring
    cases answer with
    | wrote cut refused =>
      have hrefused : refused = none := hgranted
      subst hrefused
      cases h
      exact ⟨hacquiring, by rw [hstage]; exact Nat.lt_succ_self _, rfl⟩
    | exited => cases hgranted
    | _ => cases h
  · rw [hstage] at h hacquiring
    cases answer with
    | flushed refused =>
      have hrefused : refused = none := hgranted
      subst hrefused
      cases h
      exact ⟨hacquiring, by rw [hstage]; exact Nat.lt_succ_self _, rfl⟩
    | exited => cases hgranted
    | _ => cases h
  · rw [hstage] at h hacquiring hdetail
    cases answer with
    | linked refused =>
      have hrefused : refused = none := hgranted
      subst hrefused
      obtain ⟨-, habsent, hcandidate⟩ := hdetail rfl
      dsimp only at h
      rw [hcandidate, habsent] at h
      cases h
      exact ⟨hacquiring, by rw [hstage]; exact Nat.lt_succ_self _, rfl⟩
    | exited => cases hgranted
    | _ => cases h
  · rw [hstage] at h hacquiring hdetail
    cases answer with
    | unlinked refused =>
      have hrefused : refused = none := hgranted
      subst hrefused
      obtain ⟨-, hpresent, -⟩ := hdetail rfl
      obtain ⟨file, hfile⟩ := Option.isSome_iff_exists.mp hpresent
      have hunlink : unlink shared.directory (candidateName lockPath owner.nonce) none =
          .ok (shared.directory.erase (candidateName lockPath owner.nonce)) := by
        unfold unlink
        rw [hfile]
      dsimp only at h
      rw [hunlink] at h
      cases h
      exact ⟨hacquiring, by rw [hstage]; exact Nat.lt_succ_self _, rfl⟩
    | exited => cases hgranted
    | _ => cases h

theorem acquiring_step (hreads : ReadsNumerals integerOf) (habsolute : lockPath.isAbsolute = true)
    (hsound : LockSound lockPath (Installer.Fit uid) shared) (hfacts : Facts lockPath integerOf (Installer.Fit uid) shared process)
    (hgetuid : process.getuid = none ∨ process.getuid = some uid) (halone : Alone shared process)
    (hacquiring : Acquiring lockPath integerOf present shared process) (hgranted : Granted process answer)
    (h : advance lockPath integerOf shared process answer = some (shared', process')) :
    Onward lockPath integerOf present shared process shared' process' := by
  have hstages := hacquiring
  unfold Acquiring at hstages
  cases hstage : process.stage with
  | idle outcome =>
    rw [hstage] at hstages
    cases outcome with
    | some outcome => cases hstages
    | none => exact acquiring_step_outside habsolute hacquiring hgranted (.inl hstage) h
  | ensuring => exact acquiring_step_outside habsolute hacquiring hgranted (.inr (.inl hstage)) h
  | beginning => exact acquiring_step_outside habsolute hacquiring hgranted (.inr (.inr (.inl hstage))) h
  | identifying => exact acquiring_step_outside habsolute hacquiring hgranted (.inr (.inr (.inr (.inl hstage)))) h
  | listing owner => exact acquiring_step_outside habsolute hacquiring hgranted (.inr (.inr (.inr (.inr ⟨_, hstage⟩)))) h
  | removing owner names => exact acquiring_step_recovery hreads hsound hfacts hgetuid halone hacquiring hgranted (.inl ⟨_, _, hstage⟩) h
  | looking owner => exact acquiring_step_recovery hreads hsound hfacts hgetuid halone hacquiring hgranted (.inr (.inl ⟨_, hstage⟩)) h
  | stating purpose =>
    rw [hstage] at hstages
    cases purpose with
    | archive owner =>
      exact acquiring_step_recovery hreads hsound hfacts hgetuid halone hacquiring hgranted (.inr (.inr (.inl ⟨_, hstage⟩))) h
    | message | release owner => cases hstages
  | reading purpose =>
    rw [hstage] at hstages
    cases purpose with
    | archive owner =>
      exact acquiring_step_recovery hreads hsound hfacts hgetuid halone hacquiring hgranted (.inr (.inr (.inr (.inl ⟨_, hstage⟩)))) h
    | message | release owner => cases hstages
  | probing owner existing =>
    exact acquiring_step_recovery hreads hsound hfacts hgetuid halone hacquiring hgranted (.inr (.inr (.inr (.inr (.inl ⟨_, _, hstage⟩))))) h
  | observing owner existing =>
    exact acquiring_step_recovery hreads hsound hfacts hgetuid halone hacquiring hgranted
      (.inr (.inr (.inr (.inr (.inr (.inl ⟨_, _, hstage⟩)))))) h
  | archiving owner existing =>
    exact acquiring_step_recovery hreads hsound hfacts hgetuid halone hacquiring hgranted
      (.inr (.inr (.inr (.inr (.inr (.inr ⟨_, _, hstage⟩)))))) h
  | creating owner recovered => exact acquiring_step_publication hfacts hacquiring hgranted (.inl ⟨_, _, hstage⟩) h
  | writing owner recovered => exact acquiring_step_publication hfacts hacquiring hgranted (.inr (.inl ⟨_, _, hstage⟩)) h
  | flushing owner recovered => exact acquiring_step_publication hfacts hacquiring hgranted (.inr (.inr (.inl ⟨_, _, hstage⟩))) h
  | linking owner recovered => exact acquiring_step_publication hfacts hacquiring hgranted (.inr (.inr (.inr (.inl ⟨_, _, hstage⟩)))) h
  | dropping owner recovered failure =>
    rw [hstage] at hstages
    cases failure with
    | some error => cases hstages
    | none => exact acquiring_step_publication hfacts hacquiring hgranted (.inr (.inr (.inr (.inr ⟨_, _, hstage⟩)))) h
  | holding owner recovered =>
    unfold advance at h
    rw [hstage] at h
    cases answer with
    | exited | releasing => cases hgranted
    | _ => cases h
  | _ =>
    rw [hstage] at hstages
    cases hstages

/-- Until the lock is held the call can go on. -/
theorem acquiring_goes_on (hgetuid : process.getuid = none ∨ process.getuid = some uid)
    (hacquiring : Acquiring lockPath integerOf present shared process) (hopen : ∀ owner recovered, process.stage ≠ .holding owner recovered) :
    ∃ answer, Granted process answer ∧ (advance lockPath integerOf shared process answer).isSome = true := by
  unfold Acquiring at hacquiring
  unfold advance
  cases hstage : process.stage with
  | idle outcome =>
    refine ⟨.called, True.intro, ?_⟩
    dsimp only
    split <;> rfl
  | ensuring =>
    have hensured : ensureLockDatabaseFile process.getuid none (.ok ⟨true, false, false, 0o100600, 0, uid⟩) = .ok () := by
      have howned : hasExpectedOwner process.getuid uid = true := by
        unfold hasExpectedOwner
        rcases hgetuid with h | h <;> simp [h]
      unfold ensureLockDatabaseFile
      simp [isPrivateFile, howned]
    refine ⟨.ensured none (.ok ⟨true, false, false, 0o100600, 0, uid⟩), hensured, ?_⟩
    dsimp only
    rw [hensured]
    rfl
  | beginning =>
    refine ⟨.begun none, rfl, ?_⟩
    dsimp only
    split <;> rfl
  | identifying => exact ⟨.identified (String.ofList (List.replicate 32 'a')) true, rfl, by rfl⟩
  | listing owner =>
    refine ⟨.listed shared.directory.keys none, rfl, ?_⟩
    dsimp only
    rw [if_pos (List.Perm.refl _)]
    rfl
  | removing owner names =>
    rw [hstage] at hacquiring
    cases names with
    | nil => exact absurd rfl hacquiring.2.2
    | cons name names =>
      refine ⟨.unlinked none, rfl, ?_⟩
      dsimp only
      split <;> rfl
  | looking owner =>
    refine ⟨.looked none, rfl, ?_⟩
    dsimp only
    split <;> rfl
  | stating purpose =>
    refine ⟨.stated none, rfl, ?_⟩
    dsimp only
    split <;> rfl
  | reading purpose =>
    refine ⟨.read false, rfl, ?_⟩
    dsimp only
    split <;> first | rfl | (split <;> rfl)
  | probing owner existing => exact ⟨.probed, True.intro, rfl⟩
  | observing owner existing => exact ⟨.observed true, rfl, rfl⟩
  | archiving owner existing =>
    refine ⟨.archived 0 none, rfl, ?_⟩
    dsimp only
    split <;> rfl
  | creating owner recovered =>
    refine ⟨.created none, rfl, ?_⟩
    dsimp only
    split <;> rfl
  | writing owner recovered => exact ⟨.wrote "" none, rfl, rfl⟩
  | flushing owner recovered => exact ⟨.flushed none, rfl, rfl⟩
  | linking owner recovered =>
    refine ⟨.linked none, rfl, ?_⟩
    dsimp only
    split <;> rfl
  | dropping owner recovered failure =>
    refine ⟨.unlinked none, rfl, ?_⟩
    dsimp only
    split <;> rfl
  | holding owner recovered => exact absurd hstage (hopen owner recovered)
  | _ =>
    rw [hstage] at hacquiring
    cases hacquiring

theorem Granted.of_getuid {a b : Installer} (h : a.getuid = b.getuid) (hgranted : Granted a answer) : Granted b answer := by
  cases answer with
  | ensured failure stats =>
    show ensureLockDatabaseFile b.getuid failure stats = .ok ()
    rw [← h]
    exact hgranted
  | _ => exact hgranted

end Steps

/-! ## A run of one installer -/

/-- A lone call after some answers: so many are left. -/
structure OnItsWay (lockPath : LockPath) (integerOf : List Char → Option Int) (present : Bool) (i left : Nat) (getuid : Option Nat)
    (s : Parties LockState Installer) (process : Installer) : Prop where
  member : s.members[i]? = some process
  getuid : process.getuid = getuid
  alone : Alone s.shared process
  acquiring : Acquiring lockPath integerOf present s.shared process
  left : process.stage.left s.shared.directory ≤ left

theorem lone_run {lockPath : LockPath} {integerOf : List Char → Option Int} (hreads : ReadsNumerals integerOf) (habsolute : lockPath.isAbsolute = true)
    {uid : Nat} {getuid : Option Nat} (hgetuid : getuid = none ∨ getuid = some uid) {present : Bool} {i left : Nat}
    {s s' : Parties LockState Installer} {process : Installer} (hheld : LockHeld lockPath integerOf (Installer.Fit uid) s)
    (hway : OnItsWay lockPath integerOf present i left getuid s process) {answers : List Answer}
    (hsteps : Steps (installers lockPath integerOf) s (answers.map fun answer => (i, answer)) s')
    (hgranted : ∀ answer ∈ answers, Granted process answer) :
    ∃ process', answers.length ≤ left ∧ OnItsWay lockPath integerOf present i (left - answers.length) getuid s' process' := by
  generalize hlabels : (answers.map fun answer => (i, answer)) = labels at hsteps
  induction hsteps generalizing answers with
  | nil =>
    rw [List.map_eq_nil_iff.mp hlabels]
    exact ⟨process, Nat.zero_le _, hway⟩
  | @snoc labels t u label hrest hstep ih =>
    obtain ⟨before, last, rfl, hbefore, hlast⟩ := List.map_eq_append_iff.mp hlabels
    obtain ⟨answer, rfl, hanswer⟩ := List.map_eq_singleton_iff.mp hlast
    obtain ⟨moved, hcount, hmoved⟩ := ih (fun a ha => hgranted a (List.mem_append_left _ ha)) hbefore
    have ht : LockHeld lockPath integerOf (Installer.Fit uid) t :=
      (moves_keep hreads fun _ _ h => ⟨h.user, h.umask, h.valid, h.size⟩).steps (M := installers lockPath integerOf)
        (fun process => process.stage = .unborn) rfl hheld hrest
    obtain ⟨mover, shared', process', hget, hadvance, rfl⟩ := hstep
    subst hanswer
    cases hmoved.member.symm.trans hget
    have hanswer : Granted moved answer :=
      Granted.of_getuid (hway.getuid.trans hmoved.getuid.symm) (hgranted answer (List.mem_append_right _ List.mem_cons_self))
    have hfacts := ht.each i moved hmoved.member
    have honward := acquiring_step hreads habsolute ht.shared hfacts (by rw [hmoved.getuid]; exact hgetuid) hmoved.alone hmoved.acquiring
      hanswer hadvance
    have hsame := (advance_keeps hreads (fun _ _ h => ⟨h.user, h.umask, h.valid, h.size⟩) ht.shared hfacts hadvance).effect.same
    have hleft := honward.left
    have hbound := hmoved.left
    refine ⟨process', by rw [List.length_append, List.length_singleton]; omega, ?_, ?_, ?_, honward.acquiring, ?_⟩
    · exact List.getElem?_set_self (List.getElem?_eq_some_iff.mp hmoved.member).1
    · rw [hsame]
      exact hmoved.getuid
    · intro pid hpid
      rw [hsame]
      exact hmoved.alone pid (honward.processes ▸ hpid)
    · rw [List.length_append, List.length_singleton]
      show process'.stage.left shared'.directory ≤ _
      omega

theorem Stage.left_pos (directory : Directory) (stage : Stage) : 0 < stage.left directory := by
  unfold Stage.left
  split <;> omega

/-- A process that starts after its predecessors have ended, wherever they were, acquires the lock
    unless the system refuses it something: after so many answers it holds it, and before that it
    can go on. Whether it has recovered says whether there was a record. -/
theorem lone_installer_acquires (integerOf : List Char → Option Int) (hreads : ReadsNumerals integerOf) {lockPath : LockPath}
    (habsolute : lockPath.isAbsolute = true) {labels : List (Nat × Answer)} {s s' s'' : Parties LockState Installer} {uid : Nat}
    (hinit : (installers lockPath integerOf).init s) (hprocesses : ∀ process ∈ s.members, process.Fit uid)
    (hsteps : Steps (installers lockPath integerOf) s labels s') {i : Nat} {process : Installer} (hget : s'.members[i]? = some process)
    (hgetuid : process.getuid = none ∨ process.getuid = some uid) (hidle : process.stage = .idle none)
    (halone : ∀ pid, (s'.shared.processes.lookup pid).isSome = true → pid = process.pid) {answers : List Answer}
    (hcall : Steps (installers lockPath integerOf) s' (answers.map fun answer => (i, answer)) s'')
    (hgranted : ∀ answer ∈ answers, Granted process answer) :
    answers.length ≤ s'.shared.directory.keys.length + 16 ∧ ∃ process', s''.members[i]? = some process' ∧
      ((∃ owner, process'.stage = .holding owner (s'.shared.directory.lookup (ownerRecordName lockPath)).isSome) ∨
        ∃ answer next, Granted process answer ∧ (installers lockPath integerOf).step s'' (i, answer) next) := by
  have hheld := run_held hreads (fun _ _ h => ⟨h.user, h.umask, h.valid, h.size⟩) hinit hprocesses hsteps
  have hfacts := hheld.each i process hget
  obtain ⟨hnotheld, hmine⟩ := hfacts.fresh (by rw [hidle]; rfl)
  have hfree : s'.shared.holder = none := by
    cases hholder : s'.shared.holder with
    | none => rfl
    | some pid =>
      have hpid := halone pid (hheld.shared.holder pid hholder)
      rw [hholder, hpid] at hnotheld
      exact absurd rfl hnotheld
  have hway : OnItsWay lockPath integerOf (s'.shared.directory.lookup (ownerRecordName lockPath)).isSome i
      (s'.shared.directory.keys.length + 17) process.getuid s' process := by
    refine ⟨hget, rfl, halone, ?_, ?_⟩
    · unfold Acquiring
      rw [hidle]
      exact ⟨hfree, hmine, rfl⟩
    · rw [hidle]
      exact Nat.le_refl _
  obtain ⟨process', hcount, hway'⟩ := lone_run hreads habsolute hgetuid hheld hway hcall hgranted
  have hpositive := process'.stage.left_pos s''.shared.directory
  have hleft := hway'.left
  refine ⟨by omega, process', hway'.member, ?_⟩
  by_cases hopen : ∀ owner recovered, process'.stage ≠ .holding owner recovered
  · right
    have huser : process'.getuid = none ∨ process'.getuid = some uid := by
      rw [hway'.getuid]
      exact hgetuid
    obtain ⟨answer, hanswer, hmoves⟩ := acquiring_goes_on huser hway'.acquiring hopen
    obtain ⟨⟨shared', next⟩, hnext⟩ := Option.isSome_iff_exists.mp hmoves
    exact ⟨answer, _, Granted.of_getuid hway'.getuid hanswer, process', shared', next, hway'.member, hnext, rfl⟩
  · left
    simp only [not_forall, not_not] at hopen
    obtain ⟨owner, recovered, hstage⟩ := hopen
    have hacquiring := hway'.acquiring
    unfold Acquiring at hacquiring
    rw [hstage] at hacquiring
    have hrecovered : recovered = (s'.shared.directory.lookup (ownerRecordName lockPath)).isSome := hacquiring
    exact ⟨owner, hrecovered ▸ hstage⟩

/-- What of a state the run below is about. -/
def sampleView (s : Parties LockState Installer) : List Nat × Option (Bool × Nat × Option Nat) :=
  (s.shared.processes.keys, s.members[1]?.map fun process => (process.stage.isFresh, process.pid, process.getuid))

theorem sample_recovery : ((replay (advance sampleLock sampleIntegerOf) sampleInstallers sampleCrash).bind fun s =>
      (replay (advance sampleLock sampleIntegerOf) s (sampleCall.map fun answer => (1, answer))).map fun _ => sampleView s) =
    some ([8], some (true, 8, some 500)) := by
  decide +kernel

theorem sampleCall_granted {process : Installer} (hgetuid : process.getuid = some 500) : ∀ answer ∈ sampleCall, Granted process answer := by
  intro answer hanswer
  unfold sampleCall at hanswer
  simp only [List.mem_cons, List.not_mem_nil, or_false] at hanswer
  rcases hanswer with rfl | rfl | rfl | rfl | rfl | rfl | rfl | rfl | rfl | rfl | rfl | rfl | rfl | rfl | rfl | rfl
  case inr.inl =>
    show ensureLockDatabaseFile process.getuid none _ = .ok ()
    rw [hgetuid]
    rfl
  all_goals first | exact True.intro | rfl

theorem lone_installer_acquires_after_crash : ∃ s' s'' : Parties LockState Installer,
    sampleCall.length ≤ s'.shared.directory.keys.length + 16 ∧ ∃ process', s''.members[1]? = some process' ∧
      ((∃ owner, process'.stage = .holding owner (s'.shared.directory.lookup (ownerRecordName sampleLock)).isSome) ∨
        ∃ answer next, (∃ process, Granted process answer) ∧ (installers sampleLock sampleIntegerOf).step s'' (1, answer) next) := by
  obtain ⟨s', hcrash, h⟩ := Option.bind_eq_some_iff.mp sample_recovery
  obtain ⟨s'', hcall, hview⟩ := Option.map_eq_some_iff.mp h
  obtain ⟨hkeys, hmember⟩ := Prod.mk.inj hview
  obtain ⟨process, hget, hfields⟩ := Option.map_eq_some_iff.mp hmember
  obtain ⟨hfresh, hrest⟩ := Prod.mk.inj hfields
  obtain ⟨hpid, hgetuid⟩ := Prod.mk.inj hrest
  have hidle : process.stage = .idle none := by
    cases hstage : process.stage with
    | idle outcome =>
      rw [hstage] at hfresh
      cases outcome with
      | none => rfl
      | some outcome => cases hfresh
    | _ => rw [hstage] at hfresh; cases hfresh
  have halone : ∀ pid, (s'.shared.processes.lookup pid).isSome = true → pid = process.pid := by
    intro pid hlookup
    have hmem := AList.mem_keys.mp (AList.lookup_isSome.mp hlookup)
    rw [hkeys, List.mem_singleton] at hmem
    rw [hmem, hpid]
  obtain ⟨hcount, process', hget', hends⟩ := lone_installer_acquires sampleIntegerOf sampleIntegerOf_reads rfl sample_initial sample_fit
    (sample_replay hcrash) hget (.inr hgetuid) hidle halone (sample_replay hcall) (sampleCall_granted hgetuid)
  refine ⟨s', s'', hcount, process', hget', ?_⟩
  rcases hends with hheld | ⟨answer, next, hanswer, hstep⟩
  · exact .inl hheld
  · exact .inr ⟨answer, next, ⟨process, hanswer⟩, hstep⟩

end GitCommitsPush.Installation
