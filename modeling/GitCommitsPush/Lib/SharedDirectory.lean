/-
  GitCommitsPush.Lib.SharedDirectory — the file operations of one process on a directory
  that others change too.

  Before each operation anything may have happened to the directory, to the contents of
  its files and to the clock, and the operation may fail. A descriptor is the inode it was
  opened on, so it outlives the name. An inode is its device and number; what it holds is
  the state's.

  The log is ghost: each call with the state it found and the state it left. `Conserves`:
  a call loses no inode of the directory. `operate_logs` is the one rule of the operations.
-/

import GitCommitsPush.Lib.Log

namespace GitCommitsPush.Lib.SharedDirectory

open GitCommitsPush.Lib.Effect
open GitCommitsPush.Lib.Log (Logs)

/-! ## State -/

structure Inode where
  device : Nat
  number : Nat
  deriving DecidableEq, Repr

inductive NodeKind where
  | regular | symlink | other
  deriving DecidableEq, Repr

structure Node where
  kind : NodeKind
  modifiedAtEpochMs : Rat
  contents : List UInt8
  deriving DecidableEq

inductive RootKind where
  | missing | directory | other
  deriving DecidableEq, Repr

/-- The directory itself, what its names stand for, what the inodes hold, and the time. -/
structure Files where
  root : RootKind
  names : List (String × Inode)
  node : Inode → Node
  nowEpochMs : Rat

namespace Files

def lookup (files : Files) (name : String) : Option Inode := (files.names.find? (·.1 == name)).map (·.2)

/-- `rename(2)`: the inode goes by the new name, whatever had it before. -/
def rename (files : Files) (source destination : String) : Files :=
  { files with names := (files.names.filter (·.1 != destination)).map fun entry =>
      if entry.1 == source then (destination, entry.2) else entry }

end Files

/-! ## Operations -/

structure FileError where
  code : Option String
  message : String
  deriving DecidableEq, Repr

/-- What happens before an operation: a change of the directory by others, the failure of
    the operation if it fails, and the next random name. A file is said to be missing only
    where it is. -/
structure Interference where
  change : Files → Files
  failure : Option FileError
  uuid : String
  honest : ∀ error, failure = some error → error.code ≠ some "ENOENT"

inductive FileCall where
  | statRoot
  | readdir
  | now
  | openFile (name : String)
  | fstat (descriptor : Inode)
  | read (descriptor : Inode)
  | close (descriptor : Inode)
  | randomUUID
  | rename (source destination : String)
  deriving DecidableEq, Repr

structure Entry where
  call : FileCall
  before : Files
  after : Files

structure World where
  files : Files
  ticks : Nat
  schedule : Nat → Interference
  log : List Entry

/-- One operation on the directory as others left it. -/
def operate {α : Type} (call : FileCall) (effect : Files → String → Except FileError α × Files) :
    Action World FileError α := fun w =>
  let interference := w.schedule w.ticks
  let found := interference.change w.files
  let result : Except FileError α × Files := match interference.failure with
    | some error => (.error error, found)
    | none => effect found interference.uuid
  (result.1, { w with files := result.2, ticks := w.ticks + 1, log := w.log ++ [⟨call, found, result.2⟩] })

/-- An operation that changes nothing. -/
def observe {α : Type} (call : FileCall) (answer : Files → Except FileError α) : Action World FileError α :=
  operate call fun files _ => (answer files, files)

/-- `statSync` of the directory, which may be missing. -/
def statRoot : Action World FileError RootKind := observe .statRoot fun files => .ok files.root

def readdir : Action World FileError (List String) :=
  observe .readdir fun files =>
    if files.root = .directory then .ok (files.names.map (·.1))
    else .error ⟨some "ENOENT", "ENOENT: no such file or directory, scandir"⟩

def now : Action World FileError Rat := observe .now fun files => .ok files.nowEpochMs

/-- `openSync(path, O_RDONLY | O_NOFOLLOW)`. -/
def openSync (name : String) : Action World FileError Inode :=
  observe (.openFile name) fun files => match files.lookup name with
    | none => .error ⟨some "ENOENT", "ENOENT: no such file or directory, open"⟩
    | some inode =>
      if (files.node inode).kind = .symlink then .error ⟨some "ELOOP", "ELOOP: too many symbolic links encountered, open"⟩
      else .ok inode

def fstatSync (descriptor : Inode) : Action World FileError Node :=
  observe (.fstat descriptor) fun files => .ok (files.node descriptor)

def readFileSync (descriptor : Inode) : Action World FileError (List UInt8) :=
  observe (.read descriptor) fun files => .ok (files.node descriptor).contents

def closeSync (descriptor : Inode) : Action World FileError Unit := observe (.close descriptor) fun _ => .ok ()

def randomUUID : Action World FileError String := operate .randomUUID fun files uuid => (.ok uuid, files)

def renameSync (source destination : String) : Action World FileError Unit :=
  operate (.rename source destination) fun files _ =>
    if (files.lookup source).isSome then (.ok (), files.rename source destination)
    else (.error ⟨some "ENOENT", "ENOENT: no such file or directory, rename"⟩, files)

/-- `try … finally`: what the cleanup throws comes first. -/
def finally' {α : Type} (x : Action World FileError α) (cleanup : Action World FileError Unit) :
    Action World FileError α := do
  let result ← x.outcome
  cleanup
  match result with
  | .ok a => return a
  | .error error => .throw error

/-! ## A directory at rest -/

/-- Nothing happens before an operation. -/
def Interference.idle : Interference := ⟨id, none, "", fun _ h => (by cases h)⟩

/-- A process alone with the directory. -/
def World.alone (files : Files) : World := ⟨files, 0, fun _ => .idle, []⟩

/-- A process alone with the directory, which every call since some point has found as it is. -/
structure World.Watches (files : Files) (log : List Entry) (w : World) : Prop where
  still : w.files = files
  idle : w.schedule = fun _ => .idle
  found : ∃ entries, w.log = log ++ entries ∧ ∀ entry ∈ entries, entry.before = files

theorem watches_alone (files : Files) : (World.alone files).Watches files [] :=
  ⟨rfl, rfl, [], rfl, fun entry h => (by cases h)⟩

theorem observe_alone {α : Type} {files : Files} {w : World} {call : FileCall} {answer : Files → Except FileError α}
    (h : w.files = files) (hidle : w.schedule = fun _ => .idle) :
    (observe call answer).run w =
      (answer files, { w with ticks := w.ticks + 1, log := w.log ++ [⟨call, files, files⟩] }) := by
  obtain ⟨found, ticks, schedule, log⟩ := w
  dsimp only at h hidle
  subst h hidle
  rfl

theorem observe_watches {α : Type} {files : Files} {log : List Entry} (call : FileCall)
    (answer : Files → Except FileError α) : Action.Keeps (World.Watches files log) (observe call answer) := by
  intro w hw
  obtain ⟨entries, hlog, hfound⟩ := hw.found
  rw [observe_alone hw.still hw.idle]
  refine ⟨hw.still, hw.idle, entries ++ [⟨call, files, files⟩], by rw [hlog, List.append_assoc], ?_⟩
  intro entry hentry
  rcases List.mem_append.mp hentry with hentry | hentry
  · exact hfound entry hentry
  · rw [List.mem_singleton] at hentry
    rw [hentry]

theorem finally'_keeps {α : Type} {I : World → Prop} {x : Action World FileError α} {cleanup : Action World FileError Unit}
    (hx : Action.Keeps I x) (hcleanup : Action.Keeps I cleanup) : Action.Keeps I (finally' x cleanup) := by
  refine Action.Keeps.bind (Action.Keeps.outcome hx) fun result => Action.Keeps.bind hcleanup fun _ => ?_
  cases result with
  | ok a => exact Action.Keeps.pure a
  | error error => exact Action.Keeps.throw error

/-! ## What an operation leaves -/

/-- Every name stands for what it did, or what it stood for has the new name of a rename;
    no content changes. -/
def Entry.Conserves (entry : Entry) : Prop :=
  entry.after.node = entry.before.node ∧
    ∀ name inode, entry.before.lookup name = some inode → entry.after.lookup name = some inode ∨
      ∃ destination, entry.call = .rename name destination ∧ entry.after.lookup destination = some inode

/-- The destination of a rename is a new name. -/
def Entry.Fresh (entry : Entry) : Prop :=
  ∀ source destination, entry.call = .rename source destination → entry.before.lookup destination = none

def Entry.Reads (entry : Entry) : Prop :=
  (∀ source destination, entry.call ≠ .rename source destination) ∧ entry.after = entry.before

theorem Entry.Reads.conserves {entry : Entry} (h : entry.Reads) : entry.Conserves := by
  rw [Conserves, h.2]
  exact ⟨rfl, fun name inode hname => .inl hname⟩

/-- Calls that change nothing. -/
def Reading (entries : List Entry) : Prop := ∀ entry ∈ entries, entry.Reads

theorem Reading.single {call : FileCall} {found : Files} (h : ∀ source destination, call ≠ .rename source destination) :
    Reading [⟨call, found, found⟩] := by
  intro entry hentry
  rw [List.mem_singleton] at hentry
  subst hentry
  exact ⟨h, rfl⟩

theorem Reading.nil : Reading [] := fun entry h => (by cases h)

theorem Reading.append {entries more : List Entry} (h : Reading entries) (hmore : Reading more) : Reading (entries ++ more) := by
  intro entry hentry
  rcases List.mem_append.mp hentry with hentry | hentry
  · exact h entry hentry
  · exact hmore entry hentry

theorem operate_logs {α : Type} (call : FileCall) (effect : Files → String → Except FileError α × Files) :
    Logs World.log (operate call effect) fun r entries => ∃ interference : Interference, ∃ found,
      ∃ after, entries = [⟨call, found, after⟩] ∧
        ((∃ error, interference.failure = some error ∧ r = .error error ∧ after = found) ∨
          (r, after) = effect found interference.uuid) := by
  intro w
  refine ⟨_, rfl, w.schedule w.ticks, (w.schedule w.ticks).change w.files, _, rfl, ?_⟩
  unfold operate
  simp only [Action.run]
  cases hfailure : (w.schedule w.ticks).failure with
  | some error => exact .inl ⟨error, rfl, rfl, rfl⟩
  | none => exact .inr rfl

/-- A reading call, whose answer is one about the state it found. -/
theorem observe_logs {α : Type} (call : FileCall) (answer : Files → Except FileError α) :
    Logs World.log (observe call answer) fun r entries => ∃ found, entries = [⟨call, found, found⟩] ∧
      (∀ a, r = .ok a → answer found = .ok a) ∧
      ∀ error, r = .error error → error.code = some "ENOENT" → answer found = .error error := by
  refine (operate_logs call _).conseq ?_
  rintro r entries ⟨interference, found, after, rfl, ⟨error, hfailure, rfl, rfl⟩ | heffect⟩
  · refine ⟨after, rfl, (fun a ha => (by cases ha)), fun error' he hcode => ?_⟩
    cases he
    exact absurd hcode (interference.honest error hfailure)
  · cases heffect
    exact ⟨found, rfl, (fun a ha => ha), fun error he _ => he⟩

/-- Under a new name, what a rename moves is found there and the rest where it was. -/
theorem lookup_rename {files : Files} (source : String) {destination name : String} {inode : Inode}
    (hfresh : files.lookup destination = none) (h : files.lookup name = some inode) :
    (name ≠ source ∧ (files.rename source destination).lookup name = some inode) ∨
      (name = source ∧ (files.rename source destination).lookup destination = some inode) := by
  obtain ⟨root, names, node, nowEpochMs⟩ := files
  simp only [Files.lookup, Files.rename, Option.map_eq_none_iff] at hfresh h ⊢
  induction names with
  | nil => cases h
  | cons entry names ih =>
    obtain ⟨first, found⟩ := entry
    have hne : first ≠ destination := by
      intro he
      simp [he] at hfresh
    have hrest : names.find? (·.1 == destination) = none := by
      simpa [List.find?_cons, hne] using hfresh
    rw [List.filter_cons_of_pos (by simpa using hne), List.map_cons]
    by_cases hname : first = name
    · have hinode : found = inode := by simpa [List.find?_cons, hname] using h
      by_cases hsource : name = source
      · exact .inr ⟨hsource, by simp [hname, hsource, hinode]⟩
      · exact .inl ⟨hsource, by simp [hname, hsource, hinode]⟩
    · have hlater : (names.find? (·.1 == name)).map (·.2) = some inode := by
        simpa [List.find?_cons, hname] using h
      by_cases hsource : first = source
      · have hother : name ≠ source := fun he => hname (hsource.trans he.symm)
        have hdestination : destination ≠ name := by
          intro he
          rw [← he, hrest] at hlater
          cases hlater
        rcases ih hlater hrest with ⟨_, hkept⟩ | ⟨he, _⟩
        · exact .inl ⟨hother, by simpa [List.find?_cons, hsource, hdestination] using hkept⟩
        · exact absurd he hother
      · rcases ih hlater hrest with ⟨hother, hkept⟩ | ⟨he, hmoved⟩
        · exact .inl ⟨hother, by simpa [List.find?_cons, hsource, hname] using hkept⟩
        · exact .inr ⟨he, by simpa [List.find?_cons, hsource, hne] using hmoved⟩

/-- What a successful rename to a new name does. -/
theorem renameSync_logs (source destination : String) :
    Logs World.log (renameSync source destination) fun r entries => ∃ entry, entries = [entry] ∧
      entry.call = .rename source destination ∧ (entry.Fresh → entry.Conserves) ∧
      (r = .ok () → entry.Fresh → ∃ inode, entry.before.lookup source = some inode ∧
        entry.after.lookup destination = some inode) := by
  refine (operate_logs _ _).conseq ?_
  rintro r entries ⟨interference, found, after, rfl, ⟨error, _, rfl, rfl⟩ | heffect⟩
  · exact ⟨_, rfl, rfl, fun _ => ⟨rfl, fun name inode h => .inl h⟩, fun hr => (by cases hr)⟩
  · cases hsource : found.lookup source with
    | none =>
      rw [hsource] at heffect
      cases heffect
      exact ⟨_, rfl, rfl, fun _ => ⟨rfl, fun name inode h => .inl h⟩, fun hr => (by cases hr)⟩
    | some inode =>
      rw [hsource] at heffect
      cases heffect
      refine ⟨_, rfl, rfl, fun hfresh => ⟨rfl, fun name other h => ?_⟩, fun _ hfresh => ⟨inode, hsource, ?_⟩⟩
      · have hdestination : found.lookup destination = none := hfresh source destination rfl
        rcases lookup_rename source hdestination h with ⟨_, hkept⟩ | ⟨hname, hmoved⟩
        · exact .inl hkept
        · exact .inr ⟨destination, by rw [hname], hmoved⟩
      · have hdestination : found.lookup destination = none := hfresh source destination rfl
        rcases lookup_rename source hdestination hsource with ⟨hne, _⟩ | ⟨_, hmoved⟩
        · exact absurd rfl hne
        · exact hmoved

/-! ## Reading calls -/

theorem openSync_logs (name : String) :
    Logs World.log (openSync name) fun r entries => ∃ found, entries = [⟨.openFile name, found, found⟩] ∧
      (∀ inode, r = .ok inode → found.lookup name = some inode) ∧
      ∀ error, r = .error error → error.code = some "ENOENT" → found.lookup name = none := by
  refine (observe_logs _ _).conseq ?_
  rintro r entries ⟨found, rfl, hok, herr⟩
  refine ⟨found, rfl, fun inode hr => ?_, fun error hr hcode => ?_⟩
  · have h := hok inode hr
    cases hname : found.lookup name with
    | none => simp [hname] at h
    | some opened =>
      simp only [hname] at h
      split at h
      · cases h
      · cases h
        rfl
  · have h := herr error hr hcode
    cases hname : found.lookup name with
    | none => rfl
    | some opened =>
      simp only [hname] at h
      split at h
      · cases h
        exact absurd hcode (by decide)
      · cases h

/-- A call about a descriptor never says that a file is missing. -/
theorem descriptor_logs {α : Type} (call : FileCall) (answer : Files → α) :
    Logs World.log (observe call fun files => .ok (answer files)) fun r entries => ∃ found,
      entries = [⟨call, found, found⟩] ∧ (∀ a, r = .ok a → answer found = a) ∧
      ∀ error, r = .error error → error.code ≠ some "ENOENT" := by
  refine (observe_logs _ _).conseq ?_
  rintro r entries ⟨found, rfl, hok, herr⟩
  refine ⟨found, rfl, (fun a hr => Except.ok.inj (hok a hr)), fun error hr hcode => ?_⟩
  cases herr error hr hcode

theorem finally'_logs {α : Type} {x : Action World FileError α} {cleanup : Action World FileError Unit}
    {Q : Except FileError α → List Entry → Prop} {C : Except FileError Unit → List Entry → Prop}
    (hx : Logs World.log x Q) (hcleanup : Logs World.log cleanup C) :
    Logs World.log (finally' x cleanup) fun r entries => ∃ result ending found rest, entries = found ++ rest ∧
      Q result found ∧ C ending rest ∧ (∀ a, r = .ok a → result = .ok a) ∧
      ∀ error, r = .error error → result = .error error ∨ ending = .error error := by
  refine Logs.bind_outcome hx fun result found hfound => ?_
  refine Logs.bind hcleanup (fun _ rest hrest => ?_) fun error rest hrest => ?_
  · cases result with
    | ok a =>
      refine Logs.pure ⟨_, _, found, rest, by rw [List.append_nil], hfound, hrest, (fun b hb => hb), fun error he => ?_⟩
      cases he
    | error error =>
      refine Logs.throw ⟨_, _, found, rest, by rw [List.append_nil], hfound, hrest, (fun b hb => (by cases hb)), ?_⟩
      exact fun error' he => .inl he
  · exact ⟨_, _, found, rest, rfl, hfound, hrest, (fun b hb => (by cases hb)), fun error' he => .inr (by cases he; rfl)⟩

end GitCommitsPush.Lib.SharedDirectory
