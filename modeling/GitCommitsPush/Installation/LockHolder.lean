/-
  GitCommitsPush.Installation.LockHolder — one installer at a time, and its record is its own.

  Over every interleaving of any number of processes, each of which may end at any moment:
  - `holder_alone`: while an installer holds the lock the record is its own, no candidate is left,
    and nobody else is inside.
  - `record_kept`: nobody takes away the record of a process that runs.
  - `record_whole`: the record is absent or a whole one.
-/

import GitCommitsPush.Installation.LockMoves
import GitCommitsPush.Lib.Sharing

namespace GitCommitsPush.Installation

open GitCommitsPush.Lib.FlatObject
open GitCommitsPush.Lib.Interleaving
open GitCommitsPush.Lib.JsText
open GitCommitsPush.Lib.JsonDocument (parse quoted)
open GitCommitsPush.Lib.JsonTree
open GitCommitsPush.Lib.Runs
open GitCommitsPush.Lib.Sharing
open GitCommitsPush.Trust (Stats sortedKeys asNumber)

section Moves

variable {lockPath : LockPath} {integerOf : List Char → Option Int} {fit : Installer → Prop} {shared shared' : LockState}
  {process process' : Installer} {stage stage' : Stage}

/-! ## What a move leaves to the others -/

/-- Two processes that run are two processes. -/
def Apart (a b : Installer) : Prop := a.stage.lives = true → b.stage.lives = true → a.pid ≠ b.pid

theorem lives_of_isFresh {stage : Stage} (h : stage.isFresh = true) : stage.lives = true := by
  cases stage with
  | idle outcome => rfl
  | _ => cases h

theorem Effect.other (hreads : ReadsNumerals integerOf) (hsound : LockSound lockPath fit shared) (heffect : Effect lockPath shared process shared' process')
    (hfacts : Facts lockPath integerOf fit shared process) {other : Installer} (hother : Facts lockPath integerOf fit shared other)
    (happart : Apart process other) : Facts lockPath integerOf fit shared' other ∧ Apart process' other := by
  -- A process that runs is in the table, so one that starts beside it has another number.
  have hpids : other.stage.lives = true → other.pid ≠ process.pid := by
    intro hlives heq
    have hrunning := hother.running hlives
    rcases heffect.turnover with ⟨-, -, hmover⟩ | ⟨hfree, -, -, -⟩ | ⟨-, -, hmover, -⟩
    · exact happart hmover hlives heq.symm
    · rw [heq, hfree] at hrunning
      cases hrunning
    · exact happart hmover hlives heq.symm
  have hlives_of : other.stage.inside = true → other.stage.lives = true := by
    intro hinside
    cases hstage : other.stage with
    | unborn | dead => rw [hstage] at hinside; cases hinside
    | _ => rfl
  -- While it is inside nobody else is: the directory and the lock stay.
  have hstill : other.stage.inside = true → shared'.directory = shared.directory ∧ shared'.holder = shared.holder := by
    intro hinside
    have hholds := hother.holds hinside
    have hne := hpids (hlives_of hinside)
    refine ⟨?_, ?_⟩
    · rcases heffect.directory with hsame | hmover
      · exact hsame
      · have hmoves := hfacts.holds hmover
        exact absurd (Option.some.inj (hholds.symm.trans hmoves)) hne
    · rcases heffect.holder with hsame | ⟨hfree, -⟩ | ⟨hmine, -⟩
      · exact hsame
      · rw [hfree] at hholds
        cases hholds
      · exact absurd (Option.some.inj (hholds.symm.trans hmine)) hne
  refine ⟨⟨hother.fit, fun hlives => ?_, fun hinside => ?_, hother.owns, hother.error, fun hinside => ?_, fun owner existing hstage => ?_,
    fun hfresh => ⟨fun hheld => ?_, fun file owner hfile htext hpid hidentity => ?_⟩⟩, fun _ hlives => ?_⟩
  · have hne := hpids hlives
    rcases heffect.turnover with ⟨hsame, -, -⟩ | ⟨-, -, hstarted, -⟩ | ⟨hexited, -, -, -⟩
    · rw [hsame]
      exact hother.running hlives
    · rw [hstarted, AList.lookup_insert_ne hne]
      exact hother.running hlives
    · rw [hexited, AList.lookup_erase_ne hne]
      exact hother.running hlives
  · rw [(hstill hinside).2]
    exact hother.holds hinside
  · rw [(hstill hinside).1]
    exact hother.detail hinside
  · have hgone := hother.gone owner existing hstage
    have hdetail := hother.detail
    rw [hstage] at hdetail
    rcases heffect.turnover with ⟨hsame, -, -⟩ | ⟨-, hfresh, hstarted, -⟩ | ⟨hexited, -, -, -⟩
    · rw [hsame]
      exact hgone
    · -- A process that starts is none that has been, and the record's has been.
      rw [hstarted]
      by_cases hpid : existing.pid = process.pid
      · rw [hpid, AList.lookup_insert]
        intro heq
        obtain ⟨-, file, hfile, htext⟩ := hdetail rfl
        obtain ⟨writer, recorded, -, -, rfl, hborn⟩ := hsound.record file hfile
        rw [← readText_eq hreads htext, hpid, ← Option.some.inj heq] at hborn
        exact hfresh hborn
      · rw [AList.lookup_insert_ne hpid]
        exact hgone
    · rw [hexited]
      by_cases hpid : existing.pid = process.pid
      · rw [hpid, AList.lookup_erase]
        exact fun heq => (nomatch heq)
      · rw [AList.lookup_erase_ne hpid]
        exact hgone
  · have hne := hpids (lives_of_isFresh hfresh)
    rcases heffect.holder with hsame | ⟨-, hmover⟩ | ⟨-, hnone⟩
    · exact (hother.fresh hfresh).1 (hsame ▸ hheld)
    · rw [hmover] at hheld
      exact hne (Option.some.inj hheld).symm
    · rw [hnone] at hheld
      cases hheld
  · rcases heffect.published file hfile with hold | ⟨mine, -, howns, rfl⟩
    · exact (hother.fresh hfresh).2 file owner hold htext hpid hidentity
    · rw [readText_eq hreads htext, howns.pid] at hpid
      exact hpids (lives_of_isFresh hfresh) hpid.symm
  · rw [heffect.same]
    exact (hpids hlives).symm

end Moves

/-! ## Runs -/

section Runs

variable {lockPath : LockPath} {integerOf : List Char → Option Int} {fit : Installer → Prop} {labels : List (Nat × Answer)}
  {s s' : Parties LockState Installer}

/-- What holds in every state of a run. -/
abbrev LockHeld (lockPath : LockPath) (integerOf : List Char → Option Int) (fit : Installer → Prop) : Parties LockState Installer → Prop :=
  Held (LockSound lockPath fit) (Facts lockPath integerOf fit) Apart

theorem moves_keep (hreads : ReadsNumerals integerOf) (hfit : ∀ process stage, fit process → fit { process with stage := stage }) :
    Keeps (fun shared process answer shared' process' => advance lockPath integerOf shared process answer = some (shared', process'))
      (LockSound lockPath fit) (Facts lockPath integerOf fit) Apart where
  symm h hb ha := (h ha hb).symm
  mover hsound hfacts h :=
    have hkept := advance_keeps hreads hfit hsound hfacts h
    ⟨hkept.sound, hkept.facts⟩
  other hsound hfacts hother happart h := (advance_keeps hreads hfit hsound hfacts h).effect.other hreads hsound hfacts hother happart

theorem unborn_facts (shared : LockState) {process : Installer} (hstage : process.stage = .unborn) (hprocess : fit process) :
    Facts lockPath integerOf fit shared process := by
  constructor
  case fit => exact hprocess
  all_goals rw [hstage]
  · exact fun h => (nomatch h)
  · exact fun h => (nomatch h)
  · exact fun owner h => (nomatch h)
  · exact fun error h => (nomatch h)
  · exact fun h => (nomatch h)
  · exact fun owner existing h => (nomatch h)
  · exact fun h => (nomatch h)

theorem initial_held (hinit : (installers lockPath integerOf).init s) (hprocesses : ∀ process ∈ s.members, fit process) :
    LockHeld lockPath integerOf fit s := by
  obtain ⟨hshared, hmembers⟩ := hinit
  refine ⟨⟨fun pid h => ?_, fun pid identity h => ?_, fun file h => ?_⟩, fun i process hget => ?_, fun i j a b _ ha _ hlives => ?_⟩
  · rw [hshared.holder] at h
    cases h
  · rw [hshared.processes pid] at h
    cases h
  · exact absurd rfl (hshared.directory _ (mem_of_lookup h)).1
  · have hmem := List.mem_of_getElem? hget
    exact unborn_facts _ (hmembers process hmem) (hprocesses process hmem)
  · rw [hmembers a (List.mem_of_getElem? ha)] at hlives
    cases hlives

theorem run_held (hreads : ReadsNumerals integerOf) (hfit : ∀ process stage, fit process → fit { process with stage := stage })
    (hinit : (installers lockPath integerOf).init s) (hprocesses : ∀ process ∈ s.members, fit process)
    (hsteps : Steps (installers lockPath integerOf) s labels s') : LockHeld lockPath integerOf fit s' :=
  (moves_keep hreads hfit).steps (M := installers lockPath integerOf) (fun process => process.stage = .unborn) rfl
    (initial_held hinit hprocesses) hsteps

/-- Any process will do. -/
theorem any_held (hreads : ReadsNumerals integerOf) (hinit : (installers lockPath integerOf).init s)
    (hsteps : Steps (installers lockPath integerOf) s labels s') : LockHeld lockPath integerOf (fun _ => True) s' :=
  run_held hreads (fun _ _ h => h) hinit (fun _ _ => True.intro) hsteps

theorem lives_of_inside {stage : Stage} (h : stage.inside = true) : stage.lives = true := by
  cases stage with
  | unborn | dead => cases h
  | _ => rfl

/-- Of two processes one at most is inside. -/
theorem LockHeld.outside (h : LockHeld lockPath integerOf fit s) {i j : Nat} {process other : Installer} (hij : i ≠ j)
    (hget : s.members[i]? = some process) (hother : s.members[j]? = some other) (hinside : process.stage.inside = true) :
    other.stage.inside = false := by
  cases houtside : other.stage.inside with
  | false => rfl
  | true =>
    have hfirst := (h.each i process hget).holds hinside
    have hsecond := (h.each j other hother).holds houtside
    exact absurd (Option.some.inj (hfirst.symm.trans hsecond))
      (h.apart i j process other hij hget hother (lives_of_inside hinside) (lives_of_inside houtside))

end Runs

/-! ## A run

The first installer ends between the link of its record and the removal of its candidate; the
second finds both. -/

def sampleIntegerOf (numeral : List Char) : Option Int := some (Nat.ofDigitChars 10 numeral 0 : Nat)

theorem sampleIntegerOf_reads : ReadsNumerals sampleIntegerOf := by
  intro n
  unfold sampleIntegerOf
  rw [numeralOf_eq, Nat.ofDigitChars_ten_toDigits]

def sampleLock : LockPath := ⟨true, "install.lock"⟩

def sampleInstaller (pid : Nat) (processIdentity : String) : Installer := ⟨pid, processIdentity, 500, some 500, 0o022, .unborn⟩

def sampleInstallers : Parties LockState Installer :=
  ⟨⟨∅, none, ∅, []⟩, [sampleInstaller 7 "linux-proc:b:1", sampleInstaller 8 "linux-proc:b:2"]⟩

def sampleNonce (c : Char) : String := String.ofList (List.replicate 32 c)

def sampleCrash : List (Nat × Answer) :=
  [(0, .started), (0, .called), (0, .ensured none (.ok ⟨true, false, false, 0o100600, 0, 500⟩)), (0, .begun none),
    (0, .identified (sampleNonce 'a') true), (0, .listed [] none), (0, .looked none), (0, .created none), (0, .wrote "" none),
    (0, .flushed none), (0, .linked none), (0, .exited), (1, .started)]

def sampleCall : List Answer :=
  [.called, .ensured none (.ok ⟨true, false, false, 0o100600, 0, 500⟩), .begun none, .identified (sampleNonce 'b') true,
    .listed [ownerRecordName sampleLock, candidateName sampleLock (sampleNonce 'a')] none, .unlinked none, .looked none, .stated none,
    .read false, .probed, .archived 1700000000000 none, .created none, .wrote "" none, .flushed none, .linked none, .unlinked none]

def sampleLabels : List (Nat × Answer) := sampleCrash ++ sampleCall.map fun answer => (1, answer)

def Stage.held : Stage → Option (InstallLockRecord × Bool)
  | .holding owner recovered => some (owner, recovered)
  | _ => none

theorem held_stage {stage : Stage} {owner : InstallLockRecord} {recovered : Bool} (h : stage.held = some (owner, recovered)) :
    stage = .holding owner recovered := by
  cases stage with
  | holding _ _ => cases h; rfl
  | _ => cases h

theorem sample_initial : (installers sampleLock sampleIntegerOf).init sampleInstallers := by
  refine ⟨⟨fun name hname => absurd hname (AList.notMem_empty name), rfl, fun pid => rfl⟩, fun process hprocess => ?_⟩
  have hmembers : process ∈ [sampleInstaller 7 "linux-proc:b:1", sampleInstaller 8 "linux-proc:b:2"] := hprocess
  simp only [List.mem_cons, List.not_mem_nil, or_false] at hmembers
  rcases hmembers with rfl | rfl <;> rfl

theorem sample_replay {labels : List (Nat × Answer)} {s s' : Parties LockState Installer}
    (h : replay (advance sampleLock sampleIntegerOf) s labels = some s') : Steps (installers sampleLock sampleIntegerOf) s labels s' := by
  have hsteps : Steps (interleaving (fun process : Installer => process.stage = .unborn) fun shared process answer shared' process' =>
      advance sampleLock sampleIntegerOf shared process answer = some (shared', process')) s labels s' := replay_steps h
  refine steps_congr ?_ hsteps
  rfl

/-- The run that the labels make, when it ends with a process that holds the lock. -/
theorem sample_run {labels : List (Nat × Answer)} {i : Nat} {owner : InstallLockRecord} {recovered : Bool}
    (h : ((replay (advance sampleLock sampleIntegerOf) sampleInstallers labels).bind fun s =>
      s.members[i]?.bind fun process => process.stage.held) = some (owner, recovered)) :
    ∃ s process, Steps (installers sampleLock sampleIntegerOf) sampleInstallers labels s ∧ s.members[i]? = some process ∧
      process.stage = .holding owner recovered := by
  obtain ⟨s, hreplay, h⟩ := Option.bind_eq_some_iff.mp h
  obtain ⟨process, hget, hheld⟩ := Option.bind_eq_some_iff.mp h
  exact ⟨s, process, sample_replay hreplay, hget, held_stage hheld⟩

def sampleOwner : InstallLockRecord := ⟨sampleNonce 'b', 8, "linux-proc:b:2"⟩

theorem sample_held : ∃ s process, Steps (installers sampleLock sampleIntegerOf) sampleInstallers sampleLabels s ∧
    s.members[1]? = some process ∧ process.stage = .holding sampleOwner true :=
  sample_run (by decide +kernel)

/-! ## The holder -/

theorem LockHeld.record {lockPath : LockPath} {integerOf : List Char → Option Int} {fit : Installer → Prop} {s : Parties LockState Installer}
    (h : LockHeld lockPath integerOf fit s) {i : Nat} {process : Installer} {owner : InstallLockRecord} {recovered : Bool}
    (hget : s.members[i]? = some process) (hstage : process.stage = .holding owner recovered) :
    s.shared.directory.lookup (ownerRecordName lockPath) = some (process.file owner.text) ∧ owner.pid = process.pid ∧
      owner.processIdentity = process.processIdentity ∧ Clean lockPath s.shared.directory := by
  have hfacts := h.each i process hget
  have hdetail := hfacts.detail
  have howns := hfacts.owns owner
  rw [hstage] at hdetail howns
  obtain ⟨hclean, hpublished⟩ := hdetail rfl
  exact ⟨hpublished, (howns rfl).pid, (howns rfl).identity, hclean⟩

/-- While an installer holds the lock the record is its own, no candidate is left, nobody else
    is between the start of a transaction and its end, and no release has found the record changed. -/
theorem holder_alone (integerOf : List Char → Option Int) (hreads : ReadsNumerals integerOf) {lockPath : LockPath}
    {labels : List (Nat × Answer)} {s s' : Parties LockState Installer} (hinit : (installers lockPath integerOf).init s)
    (hsteps : Steps (installers lockPath integerOf) s labels s') {i : Nat} {process : Installer} {owner : InstallLockRecord} {recovered : Bool}
    (hget : s'.members[i]? = some process) (hstage : process.stage = .holding owner recovered) :
    s'.shared.directory.lookup (ownerRecordName lockPath) = some (process.file owner.text) ∧ owner.pid = process.pid ∧
      owner.processIdentity = process.processIdentity ∧ (∀ name ∈ s'.shared.directory, isStaleCandidate lockPath name = false) ∧
      ∀ (j : Nat) (other : Installer), s'.members[j]? = some other →
        other.stage ≠ .failed .ownershipChanged ∧ (i ≠ j → other.stage.inside = false) := by
  have hheld := any_held hreads hinit hsteps
  obtain ⟨hpublished, hpid, hidentity, hclean⟩ := hheld.record hget hstage
  refine ⟨hpublished, hpid, hidentity, hclean, fun j other hother => ⟨fun heq => ?_, fun hij => ?_⟩⟩
  · exact (hheld.each j other hother).error .ownershipChanged (by rw [heq]; rfl) rfl
  · exact hheld.outside hij hget hother (by rw [hstage]; rfl)

theorem holder_alone_recovered : ∃ (s : Parties LockState Installer) (process : Installer), s.members[1]? = some process ∧
    s.shared.directory.lookup (ownerRecordName sampleLock) = some (process.file sampleOwner.text) ∧ sampleOwner.pid = process.pid ∧
      sampleOwner.processIdentity = process.processIdentity ∧
      (∀ name ∈ s.shared.directory, isStaleCandidate sampleLock name = false) ∧
      ∀ (j : Nat) (other : Installer), s.members[j]? = some other →
        other.stage ≠ .failed .ownershipChanged ∧ (1 ≠ j → other.stage.inside = false) := by
  obtain ⟨s, process, hsteps, hget, hstage⟩ := sample_held
  exact ⟨s, process, hget, holder_alone sampleIntegerOf sampleIntegerOf_reads sample_initial hsteps hget hstage⟩

/-- The record of a process that runs stays at its name until that process takes it away itself. -/
theorem record_kept (integerOf : List Char → Option Int) (hreads : ReadsNumerals integerOf) {lockPath : LockPath}
    {labels : List (Nat × Answer)} {s t u : Parties LockState Installer} (hinit : (installers lockPath integerOf).init s)
    (hsteps : Steps (installers lockPath integerOf) s labels t) {i : Nat} {answer : Answer} (hstep : (installers lockPath integerOf).step t (i, answer) u)
    {j : Nat} {process : Installer} {owner : InstallLockRecord} {file : OwnerFile} (hget : t.members[j]? = some process)
    (hlives : process.stage.lives = true) (hfile : t.shared.directory.lookup (ownerRecordName lockPath) = some file)
    (htext : readText integerOf file.content = .ok owner) (hpid : owner.pid = process.pid)
    (hidentity : owner.processIdentity = process.processIdentity) :
    u.shared.directory.lookup (ownerRecordName lockPath) = some file ∨ (i = j ∧ ∃ mine, process.stage = .unrecording mine) := by
  have hheld := any_held hreads hinit hsteps
  obtain ⟨mover, shared', mover', hmover, hadvance, rfl⟩ := hstep
  have hfacts := hheld.each i mover hmover
  have heffect := (advance_keeps hreads (fun _ _ h => h) hheld.shared hfacts hadvance).effect
  rcases heffect.record file hfile with hsame | ⟨taker, existing, hstage⟩ | ⟨mine, hstage⟩
  · exact .inl hsame
  · -- The record that is moved aside is this one, and its process runs.
    have hdetail := hfacts.detail
    rw [hstage] at hdetail
    obtain ⟨-, found, hfound, hread⟩ := hdetail rfl
    cases hfile.symm.trans hfound
    cases htext.symm.trans hread
    have hgone := hfacts.gone taker owner hstage
    rw [hpid, hidentity] at hgone
    exact absurd ((hheld.each j process hget).running hlives) hgone
  · right
    have hdetail := hfacts.detail
    rw [hstage] at hdetail
    obtain ⟨-, hpublished⟩ := hdetail rfl
    cases hfile.symm.trans hpublished
    have howner : owner = mine := readText_eq hreads htext
    have hmine := hfacts.owns mine (by rw [hstage]; rfl)
    have hsame : mover.pid = process.pid := by
      rw [← hmine.pid, ← howner, hpid]
    by_cases hij : i = j
    · subst hij
      cases hmover.symm.trans hget
      exact ⟨rfl, mine, hstage⟩
    · exact absurd hsame (hheld.apart i j mover process hij hmover hget (by rw [hstage]; rfl) hlives)

/-- The first installer has given up its call and runs on, its record linked; the second has found
    the record and asks who its process is. -/
def sampleProbe : List (Nat × Answer) :=
  sampleCrash.take 11 ++ [(0, .unlinked (some ⟨some "EACCES", "permission denied"⟩)), (0, .rolledBack false), (0, .closed none), (1, .started)] ++
    (sampleCall.take 10).map fun answer => (1, answer)

/-- What a process whose record was found runs as, and that record. -/
def recordOf (s : Parties LockState Installer) (i : Nat) : Option (Bool × Nat × String × String) :=
  s.members[i]?.bind fun process => (s.shared.directory.lookup (ownerRecordName sampleLock)).map fun file =>
    (process.stage.lives, process.pid, process.processIdentity, file.content)

theorem record_kept_observed : ∃ (t u : Parties LockState Installer) (process : Installer) (file : OwnerFile),
    (installers sampleLock sampleIntegerOf).step t (1, .observed true) u ∧ t.members[0]? = some process ∧ process.stage.lives = true ∧
      t.shared.directory.lookup (ownerRecordName sampleLock) = some file ∧
      (u.shared.directory.lookup (ownerRecordName sampleLock) = some file ∨ (1 = 0 ∧ ∃ mine, process.stage = .unrecording mine)) := by
  have hrun : ((replay (advance sampleLock sampleIntegerOf) sampleInstallers sampleProbe).bind fun t =>
      (replay (advance sampleLock sampleIntegerOf) t [(1, .observed true)]).bind fun _ => recordOf t 0) =
      some (true, 7, "linux-proc:b:1", (⟨sampleNonce 'a', 7, "linux-proc:b:1"⟩ : InstallLockRecord).text) := by decide +kernel
  obtain ⟨t, hreplay, hrun⟩ := Option.bind_eq_some_iff.mp hrun
  obtain ⟨u, hlast, hrecord⟩ := Option.bind_eq_some_iff.mp hrun
  obtain ⟨process, hget, hfound⟩ := Option.bind_eq_some_iff.mp hrecord
  obtain ⟨file, hfile, hfacts⟩ := Option.map_eq_some_iff.mp hfound
  simp only [Prod.mk.injEq] at hfacts
  obtain ⟨hlives, hpid, hidentity, hcontent⟩ := hfacts
  have hstep : (installers sampleLock sampleIntegerOf).step t (1, .observed true) u := by
    obtain ⟨mover, hmover, hmoved⟩ := Option.bind_eq_some_iff.mp hlast
    obtain ⟨moved, hadvance, hreached⟩ := Option.bind_eq_some_iff.mp hmoved
    cases hreached
    exact ⟨mover, moved.1, moved.2, hmover, hadvance, rfl⟩
  refine ⟨t, u, process, file, hstep, hget, hlives, hfile, ?_⟩
  exact record_kept sampleIntegerOf sampleIntegerOf_reads sample_initial (sample_replay hreplay) hstep hget hlives hfile
    (by rw [hcontent]; exact (readText_text sampleIntegerOf_reads _).trans (if_pos (by decide +kernel))) hpid.symm hidentity.symm

/-! ## What readers find -/

/-- A process whose records a reader of that user accepts. -/
structure Installer.Fit (uid : Nat) (process : Installer) : Prop where
  user : process.uid = uid
  umask : 0o600 &&& process.umask = 0
  valid : ∀ nonce, isLowerHex 32 nonce.toList = true → InstallLockRecord.Valid ⟨nonce, process.pid, process.processIdentity⟩
  size : ∀ nonce, isLowerHex 32 nonce.toList = true →
    (InstallLockRecord.text ⟨nonce, process.pid, process.processIdentity⟩).utf8ByteSize ≤ maxLockRecordBytes

theorem InstallLockRecord.text_size (owner : InstallLockRecord) : 0 < owner.text.utf8ByteSize := by
  rw [Nat.pos_iff_ne_zero]
  intro hzero
  have hempty := String.utf8ByteSize_eq_zero_iff.mp hzero
  have hlist : owner.text.toList = [] := by rw [hempty]; rfl
  unfold InstallLockRecord.text flatText at hlist
  rw [String.toList_ofList] at hlist
  cases hlist

theorem utf8ByteSize_le (cs : List Char) : (String.ofList cs).utf8ByteSize ≤ 4 * cs.length := by
  induction cs with
  | nil => exact Nat.le_of_eq (by rfl)
  | cons c cs ih =>
    have hc := c.utf8Size_le_four
    have hone : (String.ofList [c]).utf8ByteSize = c.utf8Size := by
      rw [← String.singleton_eq_ofList, String.utf8ByteSize_singleton]
    rw [← List.singleton_append, String.ofList_append, String.utf8ByteSize_append, List.length_append, List.length_singleton]
    omega

theorem jsonChar_length (c : Char) : (jsonChar c).length ≤ 6 := by
  unfold jsonChar
  repeat' split
  all_goals simp

theorem quoted_length (s : String) : (quoted s).length ≤ 6 * s.toList.length + 2 := by
  have hbody : ∀ cs : List Char, (cs.flatMap jsonChar).length ≤ 6 * cs.length := by
    intro cs
    induction cs with
    | nil => simp
    | cons c cs ih =>
      have hc := jsonChar_length c
      rw [List.flatMap_cons, List.length_append, List.length_cons]
      omega
  have hs := hbody s.toList
  unfold quoted
  simp only [List.cons_append, List.length_cons, List.length_append, List.length_nil]
  omega

/-- An identity of a hundred characters fits in a record. -/
theorem InstallLockRecord.short_text (owner : InstallLockRecord) (hnonce : owner.nonce.toList.length = 32)
    (hpid : (numeralOf owner.pid).length ≤ 20) (hidentity : owner.processIdentity.toList.length ≤ 100) :
    owner.text.utf8ByteSize ≤ maxLockRecordBytes := by
  have hbytes := utf8ByteSize_le (flatText ("nonce", .text owner.nonce)
    [("pid", .count owner.pid), ("processIdentity", .text owner.processIdentity), ("version", .count 1)])
  have hnonce' := quoted_length owner.nonce
  have hidentity' := quoted_length owner.processIdentity
  have hnames : (quoted "nonce").length = 7 ∧ (quoted "pid").length = 5 ∧ (quoted "processIdentity").length = 17 ∧
      (quoted "version").length = 9 ∧ (numeralOf 1).length = 1 := by decide
  obtain ⟨h1, h2, h3, h4, h5⟩ := hnames
  simp only [flatText, fieldText, othersText, scalarText, List.length_cons, List.length_append, List.length_nil, h1, h2, h3, h4, h5] at hbytes
  unfold InstallLockRecord.text maxLockRecordBytes
  simp only [flatText, fieldText, othersText, scalarText]
  omega

theorem Installer.fit_of_short {process : Installer} {uid : Nat} (huser : process.uid = uid) (humask : 0o600 &&& process.umask = 0)
    (hsafe : isSafeInteger process.pid = true) (hpositive : 0 < process.pid) (hdigits : (numeralOf process.pid).length ≤ 20)
    (hidentity : 0 < length16 process.processIdentity) (hunits : length16 process.processIdentity ≤ 2048)
    (hshort : process.processIdentity.toList.length ≤ 100) : process.Fit uid := by
  refine ⟨huser, humask, fun nonce h => ⟨h, hsafe, hpositive, hidentity, hunits⟩, fun nonce h => ?_⟩
  unfold isLowerHex at h
  simp only [Bool.and_eq_true, decide_eq_true_eq] at h
  exact InstallLockRecord.short_text _ h.1 hdigits hshort

theorem sample_fit : ∀ process ∈ sampleInstallers.members, process.Fit 500 := by
  intro process hprocess
  have hmembers : process ∈ [sampleInstaller 7 "linux-proc:b:1", sampleInstaller 8 "linux-proc:b:2"] := hprocess
  simp only [List.mem_cons, List.not_mem_nil, or_false] at hmembers
  rcases hmembers with rfl | rfl
  · exact Installer.fit_of_short rfl (by decide) (by decide) (by decide) (by decide) (by decide +kernel) (by decide +kernel) (by decide)
  · exact Installer.fit_of_short rfl (by decide) (by decide) (by decide) (by decide) (by decide +kernel) (by decide +kernel) (by decide)

/-- A record that its readers accept. -/
theorem LockSound.whole {lockPath : LockPath} {integerOf : List Char → Option Int} {uid : Nat} {shared : LockState}
    (hreads : ReadsNumerals integerOf) (hsound : LockSound lockPath (Installer.Fit uid) shared) {getuid : Option Nat} (hgetuid : getuid = none ∨ getuid = some uid) {file : OwnerFile}
    (hfile : shared.directory.lookup (ownerRecordName lockPath) = some file) :
    isPrivateRecord getuid file.stats = true ∧ ∃ owner, readText integerOf file.content = .ok owner ∧
      (owner.pid, owner.processIdentity) ∈ shared.born := by
  obtain ⟨writer, owner, hfit, howns, rfl, hborn⟩ := hsound.record file hfile
  have howner : owner = ⟨owner.nonce, writer.pid, writer.processIdentity⟩ := by
    rw [← howns.pid, ← howns.identity]
  have hvalid : owner.Valid := howner ▸ hfit.valid owner.nonce howns.nonce
  have hsize : owner.text.utf8ByteSize ≤ maxLockRecordBytes := howner ▸ hfit.size owner.nonce howns.nonce
  have hmode : createdMode writer.umask % 0o1000 = 0o600 := by
    unfold createdMode
    rw [hfit.umask]
  have howned : hasExpectedOwner getuid writer.uid = true := by
    unfold hasExpectedOwner
    rw [hfit.user]
    rcases hgetuid with rfl | rfl <;> simp
  have hpositive := owner.text_size
  refine ⟨?_, owner, (readText_text hreads owner).trans (if_pos hvalid), hborn⟩
  simp [isPrivateRecord, isPrivateFile, Installer.file, hmode, howned, hpositive, hsize]

/-- Whatever crashed and when, the record is absent or a whole one, of a process there has been. -/
theorem record_whole (integerOf : List Char → Option Int) (hreads : ReadsNumerals integerOf) {lockPath : LockPath}
    {labels : List (Nat × Answer)} {s s' : Parties LockState Installer} {uid : Nat} {getuid : Option Nat} (hgetuid : getuid = none ∨ getuid = some uid)
    (hinit : (installers lockPath integerOf).init s) (hprocesses : ∀ process ∈ s.members, process.Fit uid)
    (hsteps : Steps (installers lockPath integerOf) s labels s') {file : OwnerFile}
    (hfile : s'.shared.directory.lookup (ownerRecordName lockPath) = some file) :
    isPrivateRecord getuid file.stats = true ∧ ∃ owner, readText integerOf file.content = .ok owner ∧
      (owner.pid, owner.processIdentity) ∈ s'.shared.born :=
  (run_held hreads (fun _ _ h => ⟨h.user, h.umask, h.valid, h.size⟩) hinit hprocesses hsteps).shared.whole hreads hgetuid hfile

theorem record_whole_recovered : ∃ (s : Parties LockState Installer) (file : OwnerFile),
    s.shared.directory.lookup (ownerRecordName sampleLock) = some file ∧ isPrivateRecord (some 500) file.stats = true ∧
      ∃ owner, readText sampleIntegerOf file.content = .ok owner ∧ (owner.pid, owner.processIdentity) ∈ s.shared.born := by
  obtain ⟨s, process, hsteps, hget, hstage⟩ := sample_held
  obtain ⟨hfile, -⟩ := (any_held sampleIntegerOf_reads sample_initial hsteps).record hget hstage
  exact ⟨s, _, hfile, record_whole sampleIntegerOf sampleIntegerOf_reads (.inr rfl) sample_initial sample_fit hsteps hfile⟩

end GitCommitsPush.Installation
