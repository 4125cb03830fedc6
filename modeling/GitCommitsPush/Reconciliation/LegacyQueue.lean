/-
  GitCommitsPush.Reconciliation.LegacyQueue — the artifacts of the file queue before
  SQLite (`legacy-queue-state.ts`): inspected before admission, archived after it.

  A path is that of an entry of the state directory and is given by its name. Other
  processes do as they like with the directory between two file operations
  (`SharedDirectory`), except that the name of an archive, random, is theirs to find and
  not to choose (`ArchivesFresh`).

  `deleteLegacyQueueArtifacts_safe`: no call loses an inode, and a normal return has
  archived only what the evidence names, read back inode and bytes, and found nothing left.
-/

import GitCommitsPush.Lib.JsonTree
import GitCommitsPush.Lib.Regex
import GitCommitsPush.Lib.SharedDirectory
import GitCommitsPush.Reconciliation.Admissions

namespace GitCommitsPush.Reconciliation

open GitCommitsPush.Lib.Effect
open GitCommitsPush.Lib.JsText
open GitCommitsPush.Lib.JsonTree
open GitCommitsPush.Lib.Log (EveryEntry Logs)
open GitCommitsPush.Lib.Regex
open GitCommitsPush.Lib.SharedDirectory

/-! ## Names and evidence -/

def LEGACY_LOCK_FILE_NAME : String := "running.lock"

def LEGACY_QUEUE_LOCK_STALE_AFTER_MS : Rat := 40000

def isOrderNameStart (c : Nat) : Bool := inRange 'A' 'Z' c || inRange 'a' 'z' c || isDigit c

/-- `/^order-\d+-[A-Za-z0-9][A-Za-z0-9._-]*\.(json|flag)$/`. -/
def LEGACY_ORDER_FILE_PATTERN : Re :=
  seqAll [.atStart, lit "order-", plus isDigit, lit "-", .one isOrderNameStart,
    star (fun c => isOrderNameStart c || among "._-" c), lit ".", .group 1 (altAll [lit "json", lit "flag"]), .atEnd]

/-- `LEGACY_ORDER_CANDIDATE_PATTERN`. -/
def isOrderCandidate (fileName : String) : Bool := startsWith fileName "order-"

structure LegacyArtifactEvidence where
  path : String
  device : Nat
  inode : Nat
  size : Nat
  modifiedAtEpochMs : Rat
  sha256 : String
  deriving DecidableEq

structure LegacyQueueInspection where
  lock : LegacyLockClassification
  lockEvidence : Option LegacyArtifactEvidence
  orderArtifactPaths : List String
  orderArtifactEvidence : List LegacyArtifactEvidence

/-- The lock's evidence, if any, and that of the orders. -/
def LegacyQueueInspection.evidence (inspection : LegacyQueueInspection) : List LegacyArtifactEvidence :=
  inspection.lockEvidence.toList ++ inspection.orderArtifactEvidence

/-- What Node computes and no claim depends on: SHA-256, `localeCompare`, `JSON.parse` of a
    buffer as UTF-8, and `Number.isFinite`. -/
structure NodeRuntime where
  sha256 : List UInt8 → String
  localeCompare : String → String → Int
  parseJson : List UInt8 → Option JsonValue
  isFinite : JsonValue → Bool

def thrownError (message : String) : FileError := ⟨none, message⟩

/-! ## Inspection -/

section Inspection

variable (runtime : NodeRuntime)

/-- What is read through a descriptor; its device and inode are its own at every `fstat`. -/
def readDescriptor (filePath : String) (descriptor : Inode) :
    Action World FileError (List UInt8 × LegacyArtifactEvidence) := do
  let before ← fstatSync descriptor
  if before.kind ≠ .regular then Action.throw (thrownError "artifact is not a regular file")
  else
    let contents ← readFileSync descriptor
    let after ← fstatSync descriptor
    if before.contents.length ≠ after.contents.length ∨ before.modifiedAtEpochMs ≠ after.modifiedAtEpochMs ∨
        contents.length ≠ after.contents.length then
      Action.throw (thrownError "artifact changed while it was being inspected")
    else return (contents, {
      path := filePath
      device := descriptor.device
      inode := descriptor.number
      size := after.contents.length
      modifiedAtEpochMs := after.modifiedAtEpochMs
      sha256 := runtime.sha256 contents })

def readRegularFile (filePath : String) : Action World FileError (List UInt8 × LegacyArtifactEvidence) := do
  let descriptor ← openSync filePath
  finally' (readDescriptor runtime filePath descriptor) (closeSync descriptor)

def readLegacyOrderEvidence (filePath : String) : Action World FileError LegacyArtifactEvidence :=
  (do
    if test LEGACY_ORDER_FILE_PATTERN (units filePath) = false then
      Action.throw (thrownError "artifact name does not match the legacy queue format")
    else
      let (contents, evidence) ← readRegularFile runtime filePath
      if endsWith filePath ".json" = true then
        match runtime.parseJson contents with
        | none => Action.throw (thrownError "JSON artifact cannot be parsed")
        | some parsed =>
          if parsed.isRecord = false then Action.throw (thrownError "JSON artifact is not an object")
          else return evidence
      else return evidence).attempt fun error =>
    Action.throw (thrownError ("Legacy order artifact is malformed or unreadable: " ++ filePath ++ ": " ++ error.message))

/-- A record with the fields of a lock, each of its type. -/
def isLegacyLock (parsed : JsonValue) : Bool :=
  parsed.isRecord && ((parsed.field "runId").bind JsonValue.asString).isSome &&
    ((parsed.field "callerName").bind JsonValue.asString).isSome &&
    (parsed.field "timestamp").any fun timestamp => match timestamp with
      | .number _ => runtime.isFinite timestamp
      | _ => false

def classifyLegacyLock (lockPath : String) (nowEpochMs : Rat) :
    Action World FileError (LegacyLockClassification × Option LegacyArtifactEvidence) := do
  match ← (readRegularFile runtime lockPath).outcome with
  | .error error => return if error.code = some "ENOENT" then (.none, none) else (.malformed, none)
  | .ok (contents, evidence) => match runtime.parseJson contents with
    | none => return (.malformed, some evidence)
    | some parsed =>
      if isLegacyLock runtime parsed = false then return (.malformed, some evidence)
      else if nowEpochMs - evidence.modifiedAtEpochMs ≤ LEGACY_QUEUE_LOCK_STALE_AFTER_MS then return (.live, some evidence)
      else return (.stale, some evidence)

/-- The names of the directory; `none` when there is no directory. -/
def listStateDirectory : Action World FileError (Option (List String)) :=
  (do
    match ← statRoot with
    | .missing => return none
    | .other => Action.throw (thrownError "configured state path is not a directory")
    | .directory => return some (← readdir)).attempt fun error =>
    Action.throw (thrownError ("Reconciliation state directory is unreadable: " ++ error.message))

def readOrders : List String → Action World FileError (List LegacyArtifactEvidence)
  | [] => pure []
  | entryName :: entryNames => do
    let evidence ← readLegacyOrderEvidence runtime entryName
    return evidence :: (← readOrders entryNames)

/-- The lock of a listed directory. -/
def inspectLock (entries : List String) (nowEpochMs : Rat) :
    Action World FileError (LegacyLockClassification × Option LegacyArtifactEvidence) :=
  if entries.contains LEGACY_LOCK_FILE_NAME = true then classifyLegacyLock runtime LEGACY_LOCK_FILE_NAME nowEpochMs
  else pure (.none, none)

def inspectLegacyQueueState (nowEpochMs : Rat) : Action World FileError LegacyQueueInspection := do
  match ← listStateDirectory with
  | none => return ⟨.none, none, [], []⟩
  | some entries =>
    let (lock, lockEvidence) ← inspectLock runtime entries nowEpochMs
    let found ← readOrders runtime (entries.filter isOrderCandidate)
    let orderArtifactEvidence := found.mergeSort fun left right => runtime.localeCompare left.path right.path ≤ 0
    return ⟨lock, lockEvidence, orderArtifactEvidence.map (·.path), orderArtifactEvidence⟩

/-- At the time of the clock, `Date.now()`. -/
def inspectLegacyQueueStateNow : Action World FileError LegacyQueueInspection := do
  let nowEpochMs ← now
  inspectLegacyQueueState runtime nowEpochMs

end Inspection

/-! ## Archival -/

/-- `evidenceMatches` of two artifacts. -/
def evidenceMatches (left right : LegacyArtifactEvidence) : Bool :=
  left.path == right.path && left.device == right.device && left.inode == right.inode && left.size == right.size &&
    left.modifiedAtEpochMs == right.modifiedAtEpochMs && left.sha256 == right.sha256

def inspectionIsCompatibleForCleanup (expected current : LegacyQueueInspection) : Bool :=
  current.evidence.all fun entry => expected.evidence.any fun candidate => evidenceMatches candidate entry

def archivePath (path uuid : String) : String := ".gcp-migrated-" ++ path ++ "-" ++ uuid

section Archival

variable (runtime : NodeRuntime)

def archiveExactArtifact (evidence : LegacyArtifactEvidence) : Action World FileError Unit := do
  let uuid ← randomUUID
  renameSync evidence.path (archivePath evidence.path uuid)
  let (_, movedEvidence) ← (readRegularFile runtime (archivePath evidence.path uuid)).attempt fun _ =>
    Action.throw (thrownError "moved legacy artifact cannot be verified")
  if evidenceMatches { evidence with path := archivePath evidence.path uuid } movedEvidence = false then
    Action.throw (thrownError "legacy artifact changed before archival")
  else pure ()

def archiveAll : List LegacyArtifactEvidence → Action World FileError Unit
  | [] => pure ()
  | evidence :: rest => do
    archiveExactArtifact runtime evidence
    archiveAll rest

def deleteLegacyQueueArtifacts (expected : LegacyQueueInspection) : Action World FileError Unit := do
  let current ← inspectLegacyQueueStateNow runtime
  if inspectionIsCompatibleForCleanup expected current = false then
    Action.throw (thrownError "legacy queue state changed after reconciliation admission")
  else
    archiveAll runtime current.orderArtifactEvidence
    archiveAll runtime current.lockEvidence.toList
    let remaining ← inspectLegacyQueueStateNow runtime
    if remaining.lock ≠ .none ∨ remaining.orderArtifactPaths.length > 0 then
      Action.throw (thrownError "legacy queue state changed during reconciliation cleanup")
    else pure ()

end Archival

/-! ## What an inspection reads -/

section Reads

variable (runtime : NodeRuntime)

/-- The evidence is of what the inode under the name held: its size and time as the two
    calls around the reading saw them, and the bytes read. -/
structure EvidenceOf (inode : Inode) (before bytes after : Files) (evidence : LegacyArtifactEvidence) : Prop where
  regular : (before.node inode).kind = .regular
  device : evidence.device = inode.device
  number : evidence.inode = inode.number
  size : evidence.size = (after.node inode).contents.length
  unchangedSize : (before.node inode).contents.length = (after.node inode).contents.length
  modified : evidence.modifiedAtEpochMs = (after.node inode).modifiedAtEpochMs
  unchangedTime : (before.node inode).modifiedAtEpochMs = (after.node inode).modifiedAtEpochMs
  sha256 : evidence.sha256 = runtime.sha256 (bytes.node inode).contents

/-- The calls open the name, read its inode between two `fstat` and close it, and give the
    evidence. -/
def ReadsAs (entries : List Entry) (evidence : LegacyArtifactEvidence) : Prop :=
  ∃ inode opened before bytes after closed, entries = [⟨.openFile evidence.path, opened, opened⟩,
      ⟨.fstat inode, before, before⟩, ⟨.read inode, bytes, bytes⟩, ⟨.fstat inode, after, after⟩,
      ⟨.close inode, closed, closed⟩] ∧
    opened.lookup evidence.path = some inode ∧ EvidenceOf runtime inode before bytes after evidence

theorem readDescriptor_logs (filePath : String) (descriptor : Inode) :
    Logs World.log (readDescriptor runtime filePath descriptor) fun r entries => Reading entries ∧
      (∀ contents evidence, r = .ok (contents, evidence) → evidence.path = filePath ∧ ∃ before bytes after,
        entries = [⟨.fstat descriptor, before, before⟩, ⟨.read descriptor, bytes, bytes⟩, ⟨.fstat descriptor, after, after⟩] ∧
          EvidenceOf runtime descriptor before bytes after evidence) ∧
      ∀ error, r = .error error → error.code ≠ some "ENOENT" := by
  refine Logs.bind (descriptor_logs _ _) ?_ ?_
  rotate_left
  · rintro error entries ⟨found, rfl, _, hcode⟩
    exact ⟨Reading.single (by simp), (fun _ _ h => by cases h), fun _ h => (by cases h; exact hcode _ rfl)⟩
  rintro before _ ⟨before', rfl, hbefore, _⟩
  refine Logs.ite (fun _ => Logs.throw ?_) fun hregular => ?_
  · exact ⟨Reading.single (by simp), (fun _ _ h => by cases h), fun _ h => (by cases h; decide)⟩
  refine Logs.bind (descriptor_logs _ _) ?_ ?_
  rotate_left
  · rintro error entries ⟨found, rfl, _, hcode⟩
    refine ⟨(Reading.single (by simp)).append (Reading.single (by simp)), (fun _ _ h => by cases h), fun _ h => ?_⟩
    cases h
    exact hcode _ rfl
  rintro contents _ ⟨bytes, rfl, hcontents, _⟩
  refine Logs.bind (descriptor_logs _ _) ?_ ?_
  rotate_left
  · rintro error entries ⟨found, rfl, _, hcode⟩
    refine ⟨(Reading.single (by simp)).append ((Reading.single (by simp)).append (Reading.single (by simp))),
      (fun _ _ h => by cases h), fun _ h => ?_⟩
    cases h
    exact hcode _ rfl
  rintro after _ ⟨after', rfl, hafter, _⟩
  have hreading : Reading [⟨.fstat descriptor, before', before'⟩, ⟨.read descriptor, bytes, bytes⟩,
      ⟨.fstat descriptor, after', after'⟩] :=
    (Reading.single (by simp)).append ((Reading.single (by simp)).append (Reading.single (by simp)))
  refine Logs.ite (fun _ => Logs.throw ?_) fun hsame => Logs.pure ?_
  · exact ⟨hreading, (fun _ _ h => by cases h), fun _ h => (by cases h; decide)⟩
  · refine ⟨hreading, ?_, fun _ h => (by cases h)⟩
    intro contents' evidence h
    cases h
    have hb := hbefore before rfl
    have hc := hcontents contents rfl
    have ha := hafter after rfl
    simp only [not_or, not_not] at hsame
    refine ⟨rfl, before', bytes, after', rfl, ?_⟩
    exact {
      regular := by rw [hb]; simpa using hregular
      device := rfl
      number := rfl
      size := by rw [ha]
      unchangedSize := by rw [hb, ha]; exact hsame.1
      modified := by rw [ha]
      unchangedTime := by rw [hb, ha]; exact hsame.2.1
      sha256 := by rw [hc] }

theorem readRegularFile_logs (filePath : String) :
    Logs World.log (readRegularFile runtime filePath) fun r entries => Reading entries ∧
      (∀ contents evidence, r = .ok (contents, evidence) → evidence.path = filePath ∧ ReadsAs runtime entries evidence) ∧
      ∀ error, r = .error error → error.code = some "ENOENT" →
        ∃ found, entries = [⟨.openFile filePath, found, found⟩] ∧ found.lookup filePath = none := by
  refine Logs.bind (openSync_logs filePath) ?_ ?_
  rotate_left
  · rintro error entries ⟨found, rfl, _, hmissing⟩
    refine ⟨Reading.single (by simp), (fun _ _ h => by cases h), fun error' h hcode => ⟨found, rfl, ?_⟩⟩
    cases h
    exact hmissing _ rfl hcode
  rintro descriptor _ ⟨opened, rfl, hopened, _⟩
  refine (finally'_logs (readDescriptor_logs runtime filePath descriptor) (descriptor_logs _ _)).conseq ?_
  rintro r entries ⟨result, ending, found, _, rfl, ⟨hreading, hread, hcode⟩, ⟨closed, rfl, _, hclosed⟩, hok, herr⟩
  refine ⟨(Reading.single (by simp)).append (hreading.append (Reading.single (by simp))), ?_, ?_⟩
  · intro contents evidence h
    obtain ⟨hpath, before, bytes, after, rfl, hevidence⟩ := hread contents evidence (hok _ h)
    refine ⟨hpath, descriptor, opened, before, bytes, after, closed, by rw [hpath]; rfl, ?_, hevidence⟩
    rw [hpath]
    exact hopened descriptor rfl
  · intro error h henoent
    rcases herr error h with hresult | hending
    · exact absurd henoent (hcode error hresult)
    · exact absurd henoent (hclosed error hending)

theorem readLegacyOrderEvidence_logs (filePath : String) :
    Logs World.log (readLegacyOrderEvidence runtime filePath) fun _ entries => Reading entries := by
  refine Logs.attempt_throw (Q := fun _ entries => Reading entries) ?_ (fun _ _ h => h) (fun _ _ h => h)
  refine Logs.ite (fun _ => Logs.throw Reading.nil) fun _ => ?_
  refine Logs.bind (readRegularFile_logs runtime filePath) ?_ (fun _ _ h => h.1)
  rintro ⟨contents, evidence⟩ entries ⟨hreading, _⟩
  dsimp only
  have hdone : Reading (entries ++ []) := hreading.append Reading.nil
  refine Logs.ite (fun _ => ?_) fun _ => Logs.pure hdone
  split
  · exact Logs.throw hdone
  · exact Logs.ite (fun _ => Logs.throw hdone) fun _ => Logs.pure hdone

theorem readOrders_logs (entryNames : List String) :
    Logs World.log (readOrders runtime entryNames) fun r entries => Reading entries ∧
      ∀ found, r = .ok found → found.length = entryNames.length := by
  induction entryNames with
  | nil => exact Logs.pure ⟨Reading.nil, fun _ h => (by cases h; rfl)⟩
  | cons entryName entryNames ih =>
    refine Logs.bind (readLegacyOrderEvidence_logs runtime entryName) ?_ (fun _ _ h => ⟨h, fun _ hr => (by cases hr)⟩)
    intro evidence entries hreading
    refine Logs.bind ih ?_ (fun _ _ h => ⟨hreading.append h.1, fun _ hr => (by cases hr)⟩)
    rintro rest more ⟨hmore, hlength⟩
    refine Logs.pure ⟨hreading.append (hmore.append Reading.nil), fun found h => ?_⟩
    cases h
    simp [hlength rest rfl]

/-- The calls found no file under the name when they opened it. -/
def OpenedMissing (name : String) (entries : List Entry) : Prop :=
  ∃ found, ⟨.openFile name, found, found⟩ ∈ entries ∧ found.lookup name = none

theorem classifyLegacyLock_logs (lockPath : String) (nowEpochMs : Rat) :
    Logs World.log (classifyLegacyLock runtime lockPath nowEpochMs) fun r entries => Reading entries ∧
      ∀ evidence, r = .ok (.none, evidence) → OpenedMissing lockPath entries := by
  refine Logs.bind_outcome (readRegularFile_logs runtime lockPath) ?_
  rintro r entries ⟨hreading, _, hmissing⟩
  have hdone : Reading (entries ++ []) := hreading.append Reading.nil
  cases r with
  | error error =>
    refine Logs.pure ⟨hdone, fun evidence h => ?_⟩
    by_cases hcode : error.code = some "ENOENT"
    · obtain ⟨found, rfl, habsent⟩ := hmissing error rfl hcode
      exact ⟨found, by simp, habsent⟩
    · simp [hcode] at h
  | ok read =>
    obtain ⟨contents, evidence⟩ := read
    dsimp only
    cases runtime.parseJson contents with
    | none => exact Logs.pure ⟨hdone, fun _ h => (by cases h)⟩
    | some parsed =>
      refine Logs.ite (fun _ => Logs.pure ⟨hdone, fun _ h => (by cases h)⟩) fun _ => ?_
      exact Logs.ite (fun _ => Logs.pure ⟨hdone, fun _ h => (by cases h)⟩)
        fun _ => Logs.pure ⟨hdone, fun _ h => (by cases h)⟩

theorem inspectLock_logs (names : List String) (nowEpochMs : Rat) :
    Logs World.log (inspectLock runtime names nowEpochMs) fun r entries => Reading entries ∧
      ∀ evidence, r = .ok (.none, evidence) →
        LEGACY_LOCK_FILE_NAME ∉ names ∨ OpenedMissing LEGACY_LOCK_FILE_NAME entries := by
  refine Logs.ite (fun _ => (classifyLegacyLock_logs runtime _ _).conseq ?_) fun habsent => Logs.pure ⟨Reading.nil, ?_⟩
  · exact fun r entries h => ⟨h.1, fun evidence hr => .inr (h.2 evidence hr)⟩
  · exact fun _ _ => .inl (by simpa using habsent)

end Reads

/-- The calls list the directory, or find that there is none. -/
def Listing (r : Except FileError (Option (List String))) (entries : List Entry) : Prop :=
  Reading entries ∧ (r = .ok none → ∃ found, ⟨.statRoot, found, found⟩ ∈ entries ∧ found.root = .missing) ∧
    ∀ names, r = .ok (some names) → ∃ found, ⟨.readdir, found, found⟩ ∈ entries ∧ names = found.names.map (·.1)

theorem listStateDirectory_logs : Logs World.log listStateDirectory Listing := by
  refine Logs.attempt_throw (Q := Listing) ?_ (fun _ _ h => h)
    (fun _ _ h => ⟨h.1, (fun hr => by cases hr), fun _ hr => (by cases hr)⟩)
  refine Logs.bind (observe_logs _ _) ?_ ?_
  rotate_left
  · rintro error entries ⟨found, rfl, _⟩
    exact ⟨Reading.single (by simp), (fun h => by cases h), fun _ h => (by cases h)⟩
  rintro root _ ⟨found, rfl, hroot, _⟩
  have hreading : Reading [⟨.statRoot, found, found⟩] := Reading.single (by simp)
  cases root with
  | missing =>
    refine Logs.pure ⟨hreading, fun _ => ⟨found, by simp, ?_⟩, fun _ h => (by cases h)⟩
    exact Except.ok.inj (hroot .missing rfl)
  | other => exact Logs.throw ⟨hreading, (fun h => by cases h), fun _ h => (by cases h)⟩
  | directory =>
    refine Logs.bind (observe_logs _ _) ?_ ?_
    rotate_left
    · rintro error entries ⟨listed, rfl, _⟩
      exact ⟨hreading.append (Reading.single (by simp)), (fun h => by cases h), fun _ h => (by cases h)⟩
    rintro names _ ⟨listed, rfl, hnames, _⟩
    refine Logs.pure ⟨hreading.append (Reading.single (by simp)), (fun h => by cases h), fun names' h => ?_⟩
    cases h
    refine ⟨listed, by simp, ?_⟩
    have hlisted := hnames names rfl
    by_cases hdirectory : listed.root = .directory
    · rw [if_pos hdirectory] at hlisted
      exact (Except.ok.inj hlisted).symm
    · rw [if_neg hdirectory] at hlisted
      cases hlisted

/-- The calls found no directory, or listed no order and no lock, or a lock that was gone
    when it was opened. -/
def FoundNone (entries : List Entry) : Prop :=
  (∃ found, ⟨.statRoot, found, found⟩ ∈ entries ∧ found.root = .missing) ∨
    ∃ listed, ⟨.readdir, listed, listed⟩ ∈ entries ∧ (∀ name ∈ listed.names.map (·.1), isOrderCandidate name = false) ∧
      (LEGACY_LOCK_FILE_NAME ∉ listed.names.map (·.1) ∨ OpenedMissing LEGACY_LOCK_FILE_NAME entries)

/-- No lock and no order is answered only where none is. -/
def InspectedNone (r : Except FileError LegacyQueueInspection) (entries : List Entry) : Prop :=
  ∀ inspection, r = .ok inspection → inspection.lock = .none → inspection.orderArtifactPaths = [] → FoundNone entries

theorem inspectLegacyQueueState_logs (runtime : NodeRuntime) (nowEpochMs : Rat) :
    Logs World.log (inspectLegacyQueueState runtime nowEpochMs) fun r entries =>
      Reading entries ∧ InspectedNone r entries := by
  refine Logs.bind listStateDirectory_logs ?_ (fun _ _ h => ⟨h.1, fun _ hr => (by cases hr)⟩)
  rintro listing entries ⟨hlist, hnone, hsome⟩
  cases listing with
  | none =>
    obtain ⟨found, hfound, hroot⟩ := hnone rfl
    exact Logs.pure ⟨hlist.append Reading.nil, fun _ _ _ _ => .inl ⟨found, by simp [hfound], hroot⟩⟩
  | some names =>
    obtain ⟨listed, hlisted, rfl⟩ := hsome names rfl
    dsimp only
    refine Logs.bind (inspectLock_logs runtime _ _) ?_
      (fun _ _ h => ⟨hlist.append h.1, fun _ hr => (by cases hr)⟩)
    rintro ⟨lock, lockEvidence⟩ more ⟨hmore, hlock⟩
    dsimp only
    refine Logs.bind (readOrders_logs runtime _) ?_
      (fun _ _ h => ⟨hlist.append (hmore.append h.1), fun _ hr => (by cases hr)⟩)
    rintro found orders ⟨horders, hlength⟩
    refine Logs.pure ⟨hlist.append (hmore.append (horders.append Reading.nil)), ?_⟩
    intro inspection h hnolock hnoorder
    cases h
    refine .inr ⟨listed, by simp [hlisted], ?_, ?_⟩
    · have hempty : found = [] := by
        have := congrArg List.length hnoorder
        simpa using this
      have hfilter : (listed.names.map (·.1)).filter isOrderCandidate = [] := by
        rw [hempty] at hlength
        exact List.eq_nil_of_length_eq_zero (hlength [] rfl).symm
      intro name hname
      simpa using List.filter_eq_nil_iff.mp hfilter name hname
    · dsimp only at hnolock
      subst hnolock
      rcases hlock lockEvidence rfl with hmissing | ⟨opened, hopened, hmissing⟩
      · exact .inl hmissing
      · exact .inr ⟨opened, by simp [hopened], hmissing⟩

theorem FoundNone.of_suffix {before entries : List Entry} (h : FoundNone entries) : FoundNone (before ++ entries) := by
  rcases h with ⟨found, hfound, hroot⟩ | ⟨listed, hlisted, horders, hlock⟩
  · exact .inl ⟨found, List.mem_append_right _ hfound, hroot⟩
  · refine .inr ⟨listed, List.mem_append_right _ hlisted, horders, hlock.imp_right ?_⟩
    exact fun ⟨found, hfound, hmissing⟩ => ⟨found, List.mem_append_right _ hfound, hmissing⟩

theorem inspectLegacyQueueStateNow_logs (runtime : NodeRuntime) :
    Logs World.log (inspectLegacyQueueStateNow runtime) fun r entries => Reading entries ∧ InspectedNone r entries := by
  refine Logs.bind (observe_logs _ _) ?_ ?_
  rotate_left
  · rintro error entries ⟨found, rfl, _⟩
    exact ⟨Reading.single (by simp), fun _ h => (by cases h)⟩
  rintro nowEpochMs _ ⟨clock, rfl, _⟩
  refine (inspectLegacyQueueState_logs runtime nowEpochMs).conseq fun r entries h => ?_
  exact ⟨(Reading.single (by simp)).append h.1, fun inspection hr hlock horders => (h.2 inspection hr hlock horders).of_suffix⟩

/-! ## What a cleanup archives -/

section Archives

variable (runtime : NodeRuntime)

theorem evidenceMatches_iff {left right : LegacyArtifactEvidence} : evidenceMatches left right = true ↔ left = right := by
  cases left
  cases right
  simp only [evidenceMatches, Bool.and_eq_true, beq_iff_eq, LegacyArtifactEvidence.mk.injEq, and_assoc]

/-- The rename takes a file of the evidence; what is then read under the archive's name is
    what the evidence says. -/
def MovesExact (allowed : List LegacyArtifactEvidence) (entry : Entry) (after : List Entry) : Prop :=
  ∀ source destination, entry.call = .rename source destination → ∃ evidence ∈ allowed, evidence.path = source ∧
    (entry.Fresh → ∃ inode, entry.before.lookup source = some inode ∧ entry.after.lookup destination = some inode) ∧
    ∃ reads rest, after = reads ++ rest ∧ ReadsAs runtime reads { evidence with path := destination }

/-- Every rename among the calls is one of an artifact of the evidence. -/
def ArchivesExact (allowed : List LegacyArtifactEvidence) (entries : List Entry) : Prop :=
  EveryEntry (fun _ entry after => MovesExact runtime allowed entry after) entries

variable {runtime} {allowed : List LegacyArtifactEvidence}

theorem archivesExact_of_reading {entries : List Entry} (h : Reading entries) : ArchivesExact runtime allowed entries :=
  EveryEntry.of_mem fun entry hentry _ _ source destination hcall => absurd hcall ((h entry hentry).1 source destination)

theorem ArchivesExact.append {entries more : List Entry} (h : ArchivesExact runtime allowed entries)
    (hmore : ArchivesExact runtime allowed more) : ArchivesExact runtime allowed (entries ++ more) := by
  refine EveryEntry.append ?_ hmore
  intro before entry after hsplit source destination hcall
  obtain ⟨evidence, hallowed, hpath, hmoved, reads, rest, rfl, hreads⟩ := h before entry after hsplit source destination hcall
  exact ⟨evidence, hallowed, hpath, hmoved, reads, rest ++ more, by rw [List.append_assoc], hreads⟩

theorem ArchivesExact.mono {others : List LegacyArtifactEvidence} {entries : List Entry}
    (h : ArchivesExact runtime allowed entries) (hsub : ∀ evidence ∈ allowed, evidence ∈ others) :
    ArchivesExact runtime others entries := by
  intro before entry after hsplit source destination hcall
  obtain ⟨evidence, hallowed, hrest⟩ := h before entry after hsplit source destination hcall
  exact ⟨evidence, hsub evidence hallowed, hrest⟩

/-- A call loses no inode as long as the name it gives is new; that name is an archive's. -/
def CarefulCall (entry : Entry) : Prop :=
  (entry.Fresh → entry.Conserves) ∧
    ∀ source destination, entry.call = .rename source destination → ∃ uuid, destination = archivePath source uuid

def Careful (entries : List Entry) : Prop := ∀ entry ∈ entries, CarefulCall entry

theorem careful_of_reading {entries : List Entry} (h : Reading entries) : Careful entries :=
  fun entry hentry => ⟨fun _ => (h entry hentry).conserves,
    fun source destination hcall => absurd hcall ((h entry hentry).1 source destination)⟩

theorem Careful.append {entries more : List Entry} (h : Careful entries) (hmore : Careful more) : Careful (entries ++ more) := by
  intro entry hentry
  rcases List.mem_append.mp hentry with hentry | hentry
  · exact h entry hentry
  · exact hmore entry hentry

theorem archiveExactArtifact_logs (evidence : LegacyArtifactEvidence) :
    Logs World.log (archiveExactArtifact runtime evidence) fun r entries => Careful entries ∧
      (r = .ok () → ArchivesExact runtime [evidence] entries) := by
  refine Logs.bind (operate_logs _ _) ?_ ?_
  rotate_left
  · rintro error entries ⟨interference, found, after, rfl, ⟨_, _, _, rfl⟩ | heffect⟩
    · exact ⟨careful_of_reading (Reading.single (by simp)), fun h => (by cases h)⟩
    · cases heffect
  rintro uuid _ ⟨interference, asked, after, rfl, heffect⟩
  have hasked : Reading [⟨.randomUUID, asked, after⟩] := by
    rcases heffect with ⟨_, _, h, _⟩ | h
    · cases h
    · cases h
      exact Reading.single (by simp)
  refine Logs.bind (renameSync_logs _ _) ?_ ?_
  rotate_left
  · rintro error entries ⟨moved, rfl, hcall, hconserves, _⟩
    refine ⟨(careful_of_reading hasked).append ?_, fun h => (by cases h)⟩
    simpa [Careful, CarefulCall, hcall] using hconserves
  rintro _ _ ⟨moved, rfl, hcall, hconserves, hmoved⟩
  have hcareful : Careful ([⟨.randomUUID, asked, after⟩] ++ [moved]) := by
    refine (careful_of_reading hasked).append ?_
    simpa [Careful, CarefulCall, hcall] using hconserves
  refine Logs.bind (Logs.attempt_throw (Q := fun r entries => Reading entries ∧ ∀ contents found, r = .ok (contents, found) →
      ReadsAs runtime entries found ∧ found.path = archivePath evidence.path uuid)
    (R := fun r entries => Reading entries ∧ ∀ contents found, r = .ok (contents, found) →
      ReadsAs runtime entries found ∧ found.path = archivePath evidence.path uuid)
    ((readRegularFile_logs runtime _).conseq ?_) (fun _ _ h => h) ?_) ?_ ?_
  · exact fun r entries h => ⟨h.1, fun contents found hr => ⟨(h.2.1 contents found hr).2, (h.2.1 contents found hr).1⟩⟩
  · exact fun _ _ h => ⟨h.1, fun _ _ hr => (by cases hr)⟩
  rotate_left
  · rintro error reads ⟨hreads, _⟩
    exact ⟨by simpa using hcareful.append (careful_of_reading hreads), fun h => (by cases h)⟩
  rintro ⟨contents, movedEvidence⟩ reads ⟨hreads, hread⟩
  obtain ⟨hreadsAs, hpath⟩ := hread contents movedEvidence rfl
  have hall : Careful ([⟨.randomUUID, asked, after⟩] ++ ([moved] ++ (reads ++ []))) := by
    simpa using hcareful.append (careful_of_reading hreads)
  refine Logs.ite (fun _ => Logs.throw ⟨hall, fun h => (by cases h)⟩) fun hmatch => Logs.pure ⟨hall, fun _ => ?_⟩
  rw [Bool.not_eq_false, evidenceMatches_iff] at hmatch
  refine (archivesExact_of_reading hasked).append ?_
  rw [List.append_nil]
  refine EveryEntry.cons ?_ ?_
  · intro source destination hrename
    rw [hcall] at hrename
    cases hrename
    exact ⟨evidence, List.mem_singleton_self _, rfl, hmoved rfl, reads, [], (List.append_nil _).symm, hmatch ▸ hreadsAs⟩
  · exact fun before entry after hsplit => archivesExact_of_reading hreads before entry after hsplit

theorem archiveAll_logs (artifacts : List LegacyArtifactEvidence) :
    Logs World.log (archiveAll runtime artifacts) fun r entries => Careful entries ∧
      (r = .ok () → ArchivesExact runtime artifacts entries) := by
  induction artifacts with
  | nil => exact Logs.pure ⟨careful_of_reading Reading.nil, fun _ => EveryEntry.nil⟩
  | cons evidence rest ih =>
    refine Logs.bind (archiveExactArtifact_logs evidence) ?_ (fun _ _ h => ⟨h.1, fun hr => (by cases hr)⟩)
    rintro _ entries ⟨hcareful, hexact⟩
    refine ih.conseq ?_
    rintro r more ⟨hmore, hrest⟩
    refine ⟨hcareful.append hmore, fun hr => ?_⟩
    exact ((hexact rfl).mono (by simp)).append ((hrest hr).mono fun e he => List.mem_cons_of_mem _ he)

end Archives

/-! ## The cleanup -/

/-- The name of an archive is new when it is given, and the others leave it as it is. -/
def ArchivesFresh (entries : List Entry) : Prop :=
  EveryEntry (fun _ entry after => entry.Fresh ∧ ∀ source destination, entry.call = .rename source destination →
    ∀ later ∈ after, later.before.lookup destination = entry.after.lookup destination) entries

/-- What a cleanup that returns has done. -/
structure Migrated (runtime : NodeRuntime) (expected : LegacyQueueInspection) (entries : List Entry) : Prop where
  /-- A file archived is one of the evidence: its inode, and by the calls that follow its
      size, its time and the digest of its bytes. -/
  archived : EveryEntry (fun _ entry after => ∀ source destination, entry.call = .rename source destination →
    ∃ evidence ∈ expected.evidence, ∃ inode, evidence.path = source ∧ entry.before.lookup source = some inode ∧
      entry.after.lookup destination = some inode ∧ evidence.device = inode.device ∧ evidence.inode = inode.number ∧
      ∃ reads rest, after = reads ++ rest ∧ ReadsAs runtime reads { evidence with path := destination }) entries
  /-- It ends with an inspection that finds nothing. -/
  inspected : ∃ before last, entries = before ++ last ∧ Reading last ∧ FoundNone last

theorem inspectionIsCompatibleForCleanup_iff {expected current : LegacyQueueInspection} :
    inspectionIsCompatibleForCleanup expected current = true ↔ ∀ entry ∈ current.evidence, entry ∈ expected.evidence := by
  simp only [inspectionIsCompatibleForCleanup, List.all_eq_true, List.any_eq_true, evidenceMatches_iff]
  exact forall₂_congr fun entry _ => ⟨fun ⟨candidate, h, he⟩ => he ▸ h, fun h => ⟨entry, h, rfl⟩⟩

/-- What is read under an archive's name is the inode that was moved there. -/
theorem archived_inode {runtime : NodeRuntime} {evidence : LegacyArtifactEvidence} {destination : String} {inode : Inode}
    {reads rest : List Entry} {moved : Entry} (hreads : ReadsAs runtime reads { evidence with path := destination })
    (hmoved : moved.after.lookup destination = some inode)
    (hkept : ∀ later ∈ reads ++ rest, later.before.lookup destination = moved.after.lookup destination) :
    evidence.device = inode.device ∧ evidence.inode = inode.number := by
  obtain ⟨found, opened, before, bytes, after, closed, rfl, hopened, hevidence⟩ := hreads
  have hsame := hkept ⟨.openFile destination, opened, opened⟩ (by simp)
  rw [hmoved] at hsame
  have hfound : found = inode := Option.some.inj (hopened.symm.trans hsame)
  subst hfound
  exact ⟨hevidence.device, hevidence.number⟩

theorem deleteLegacyQueueArtifacts_logs (runtime : NodeRuntime) (expected : LegacyQueueInspection) :
    Logs World.log (deleteLegacyQueueArtifacts runtime expected) fun r entries => Careful entries ∧
      (r = .ok () → ArchivesExact runtime expected.evidence entries ∧
        ∃ before last, entries = before ++ last ∧ Reading last ∧ FoundNone last) := by
  refine Logs.bind (inspectLegacyQueueStateNow_logs runtime) ?_
    (fun _ _ h => ⟨careful_of_reading h.1, fun hr => (by cases hr)⟩)
  rintro current entries ⟨hcurrent, _⟩
  have hcareful := careful_of_reading hcurrent
  refine Logs.ite (fun _ => Logs.throw ⟨by simpa using hcareful, fun h => (by cases h)⟩) fun hcompatible => ?_
  rw [Bool.not_eq_false, inspectionIsCompatibleForCleanup_iff] at hcompatible
  refine Logs.bind (archiveAll_logs _) ?_ (fun _ _ h => ⟨hcareful.append h.1, fun hr => (by cases hr)⟩)
  rintro _ orders ⟨horders, hexactOrders⟩
  refine Logs.bind (archiveAll_logs _) ?_ (fun _ _ h => ⟨hcareful.append (horders.append h.1), fun hr => (by cases hr)⟩)
  rintro _ lock ⟨hlock, hexactLock⟩
  have hsofar : Careful (entries ++ (orders ++ lock)) := hcareful.append (horders.append hlock)
  refine Logs.bind (inspectLegacyQueueStateNow_logs runtime) ?_ ?_
  rotate_left
  · exact fun _ last h => ⟨by simpa using hsofar.append (careful_of_reading h.1), fun hr => (by cases hr)⟩
  rintro remaining last ⟨hlast, hnone⟩
  have hall : Careful (entries ++ (orders ++ (lock ++ (last ++ [])))) := by
    simpa using hsofar.append (careful_of_reading hlast)
  refine Logs.ite (fun _ => Logs.throw ⟨hall, fun h => (by cases h)⟩) fun hempty => Logs.pure ⟨hall, fun _ => ⟨?_, ?_⟩⟩
  · refine (archivesExact_of_reading hcurrent).append (ArchivesExact.append ?_ (ArchivesExact.append ?_ ?_))
    · exact (hexactOrders rfl).mono fun e he => hcompatible e (List.mem_append_right _ he)
    · exact (hexactLock rfl).mono fun e he => hcompatible e (List.mem_append_left _ he)
    · exact archivesExact_of_reading (hlast.append Reading.nil)
  · rw [not_or, not_not, Nat.not_lt, Nat.le_zero] at hempty
    refine ⟨entries ++ (orders ++ lock), last, by simp, hlast, ?_⟩
    exact hnone remaining rfl hempty.1 (List.eq_nil_of_length_eq_zero hempty.2)

/-- From any world, under any evidence and whatever the others do: no call of the cleanup
    loses an inode, and when it returns it has archived the exact files of the evidence and
    found nothing left. -/
theorem deleteLegacyQueueArtifacts_safe (runtime : NodeRuntime) (expected : LegacyQueueInspection) (w : World) :
    ∃ entries, ((deleteLegacyQueueArtifacts runtime expected).run w).2.log = w.log ++ entries ∧
      (ArchivesFresh entries →
        (∀ entry ∈ entries, entry.Conserves ∧ ∀ source destination, entry.call = .rename source destination →
          ∃ uuid, destination = archivePath source uuid) ∧
        (((deleteLegacyQueueArtifacts runtime expected).run w).1 = .ok () → Migrated runtime expected entries)) := by
  obtain ⟨entries, hlog, hcareful, hdone⟩ := deleteLegacyQueueArtifacts_logs runtime expected w
  refine ⟨entries, hlog, fun hfresh => ⟨fun entry hentry => ?_, fun hr => ?_⟩⟩
  · obtain ⟨before, after, hsplit⟩ := List.append_of_mem hentry
    exact ⟨(hcareful entry hentry).1 (hfresh before entry after hsplit).1, (hcareful entry hentry).2⟩
  · obtain ⟨hexact, hinspected⟩ := hdone hr
    refine ⟨fun before entry after hsplit source destination hcall => ?_, hinspected⟩
    obtain ⟨evidence, hallowed, hpath, hmoved, reads, rest, rfl, hreads⟩ :=
      hexact before entry after hsplit source destination hcall
    obtain ⟨hnew, hkept⟩ := hfresh before entry _ hsplit
    obtain ⟨inode, hbefore, hafter⟩ := hmoved hnew
    obtain ⟨hdevice, hnumber⟩ := archived_inode hreads hafter (hkept source destination hcall)
    exact ⟨evidence, hallowed, inode, hpath, hbefore, hafter, hdevice, hnumber, reads, rest, rfl, hreads⟩

/-! ### A lock and an order are archived -/

/-- `ArchivesFresh` of the calls of a finished run, computed. -/
def archivesFreshly : List Entry → Bool
  | [] => true
  | entry :: after => (match entry.call with
      | .rename _ destination => entry.before.lookup destination == none &&
          after.all fun later => later.before.lookup destination == entry.after.lookup destination
      | _ => true) && archivesFreshly after

theorem archivesFresh_of_freshly {entries : List Entry} (h : archivesFreshly entries = true) : ArchivesFresh entries := by
  induction entries with
  | nil => exact EveryEntry.nil
  | cons entry after ih =>
    unfold archivesFreshly at h
    obtain ⟨hentry, hafter⟩ := Bool.and_eq_true_iff.mp h
    refine EveryEntry.cons ⟨fun source destination hcall => ?_, fun source destination hcall later hlater => ?_⟩ (ih hafter)
    · rw [hcall] at hentry
      exact eq_of_beq (Bool.and_eq_true_iff.mp hentry).1
    · rw [hcall] at hentry
      exact eq_of_beq (List.all_eq_true.mp (Bool.and_eq_true_iff.mp hentry).2 later hlater)

def renameOf (entry : Entry) : Option (String × String) := match entry.call with
  | .rename source destination => some (source, destination)
  | _ => none

def sampleNode : NodeRuntime where
  sha256 contents := String.ofList (contents.map fun byte => Char.ofNat byte.toNat)
  localeCompare _ _ := 0
  parseJson contents := if contents = [123, 125] then
      some (.object [("runId", .string "r"), ("callerName", .string "c"), ("timestamp", .number (some 1))])
    else none
  isFinite _ := true

def sampleDirectory : Files where
  root := .directory
  names := [("running.lock", ⟨1, 10⟩), ("order-1-a.flag", ⟨1, 11⟩), ("a.log", ⟨1, 12⟩)]
  node inode := if inode.number = 10 then ⟨.regular, 1000, [123, 125]⟩ else ⟨.regular, 2000, []⟩
  nowEpochMs := 50000

def withReport (files : Files) : Files := { files with names := files.names ++ [("report", ⟨1, 13⟩)] }

/-- Others create a file after the first rename. -/
def sampleWorld : World where
  files := sampleDirectory
  ticks := 0
  schedule tick := { Interference.idle with
    change := if tick = 16 then withReport else id
    uuid := if tick = 13 then "a" else "b" }
  log := []

def sampleInspection : LegacyQueueInspection :=
  ⟨.stale, some ⟨"running.lock", 1, 10, 2, 1000, "\x7b\x7d"⟩, ["order-1-a.flag"], [⟨"order-1-a.flag", 1, 11, 0, 2000, ""⟩]⟩

def sampleCleanup : Except FileError Unit × World := (deleteLegacyQueueArtifacts sampleNode sampleInspection).run sampleWorld

/-- The order and the lock are archived under names that were new, and the cleanup returns. -/
theorem deleteLegacyQueueArtifacts_archived : ∃ entries, sampleCleanup.2.log = entries ∧ sampleCleanup.1 = .ok () ∧
    entries.filterMap renameOf = [("order-1-a.flag", ".gcp-migrated-order-1-a.flag-a"),
      ("running.lock", ".gcp-migrated-running.lock-b")] ∧
    ArchivesFresh entries ∧ Migrated sampleNode sampleInspection entries := by
  have hrun : sampleCleanup.1.toOption = some () ∧ sampleCleanup.2.log.filterMap renameOf =
        [("order-1-a.flag", ".gcp-migrated-order-1-a.flag-a"), ("running.lock", ".gcp-migrated-running.lock-b")] ∧
      archivesFreshly sampleCleanup.2.log = true := by decide +kernel
  obtain ⟨hended, hrenamed, hfreshly⟩ := hrun
  have hok : sampleCleanup.1 = .ok () := by
    cases hr : sampleCleanup.1 with
    | error error =>
      rw [hr] at hended
      cases hended
    | ok => rfl
  obtain ⟨entries, hlog, hsafe⟩ := deleteLegacyQueueArtifacts_safe sampleNode sampleInspection sampleWorld
  have hentries : sampleCleanup.2.log = entries := hlog
  rw [hentries] at hrenamed hfreshly
  have hfresh := archivesFresh_of_freshly hfreshly
  exact ⟨entries, hentries, hok, hrenamed, hfresh, (hsafe hfresh).2 hok⟩

/-! ## A directory at rest -/

/-- No lock and no order in the directory, or no directory. -/
def Cleared (files : Files) : Prop :=
  files.root = .missing ∨ files.root = .directory ∧
    ∀ name ∈ files.names.map (·.1), name ≠ LEGACY_LOCK_FILE_NAME ∧ isOrderCandidate name = false

section Rest

variable {files : Files} {log : List Entry} (runtime : NodeRuntime)

theorem readRegularFile_watches (filePath : String) :
    Action.Keeps (World.Watches files log) (readRegularFile runtime filePath) := by
  refine Action.Keeps.bind (observe_watches _ _) fun descriptor => finally'_keeps ?_ (observe_watches _ _)
  refine Action.Keeps.bind (observe_watches _ _) fun before => Action.Keeps.ite (fun _ => Action.Keeps.throw _) fun _ => ?_
  refine Action.Keeps.bind (observe_watches _ _) fun contents => Action.Keeps.bind (observe_watches _ _) fun after => ?_
  exact Action.Keeps.ite (fun _ => Action.Keeps.throw _) fun _ => Action.Keeps.pure _

theorem readLegacyOrderEvidence_watches (filePath : String) :
    Action.Keeps (World.Watches files log) (readLegacyOrderEvidence runtime filePath) := by
  refine Action.Keeps.attempt ?_ fun error => Action.Keeps.throw _
  refine Action.Keeps.ite (fun _ => Action.Keeps.throw _) fun _ => ?_
  refine Action.Keeps.bind (readRegularFile_watches runtime filePath) fun read => ?_
  obtain ⟨contents, evidence⟩ := read
  dsimp only
  refine Action.Keeps.ite (fun _ => ?_) fun _ => Action.Keeps.pure _
  split
  · exact Action.Keeps.throw _
  · exact Action.Keeps.ite (fun _ => Action.Keeps.throw _) fun _ => Action.Keeps.pure _

theorem readOrders_watches (entryNames : List String) :
    Action.Keeps (World.Watches files log) (readOrders runtime entryNames) := by
  induction entryNames with
  | nil => exact Action.Keeps.pure _
  | cons entryName entryNames ih =>
    refine Action.Keeps.bind (readLegacyOrderEvidence_watches runtime entryName) fun evidence => ?_
    exact Action.Keeps.bind ih fun rest => Action.Keeps.pure _

theorem inspectLock_watches (names : List String) (nowEpochMs : Rat) :
    Action.Keeps (World.Watches files log) (inspectLock runtime names nowEpochMs) := by
  refine Action.Keeps.ite (fun _ => ?_) fun _ => Action.Keeps.pure _
  refine Action.Keeps.bind (Action.Keeps.outcome (readRegularFile_watches runtime _)) fun read => ?_
  cases read with
  | error error => exact Action.Keeps.pure _
  | ok read =>
    obtain ⟨contents, evidence⟩ := read
    dsimp only
    split
    · exact Action.Keeps.pure _
    · refine Action.Keeps.ite (fun _ => Action.Keeps.pure _) fun _ => ?_
      exact Action.Keeps.ite (fun _ => Action.Keeps.pure _) fun _ => Action.Keeps.pure _

theorem listStateDirectory_watches : Action.Keeps (World.Watches files log) listStateDirectory := by
  refine Action.Keeps.attempt ?_ fun error => Action.Keeps.throw _
  refine Action.Keeps.bind (observe_watches _ _) fun root => ?_
  cases root with
  | missing => exact Action.Keeps.pure _
  | other => exact Action.Keeps.throw _
  | directory => exact Action.Keeps.bind (observe_watches _ _) fun names => Action.Keeps.pure _

theorem inspectLegacyQueueState_watches (nowEpochMs : Rat) :
    Action.Keeps (World.Watches files log) (inspectLegacyQueueState runtime nowEpochMs) := by
  refine Action.Keeps.bind listStateDirectory_watches fun listing => ?_
  cases listing with
  | none => exact Action.Keeps.pure _
  | some names =>
    refine Action.Keeps.bind (inspectLock_watches runtime names nowEpochMs) fun lock => ?_
    exact Action.Keeps.bind (readOrders_watches runtime _) fun found => Action.Keeps.pure _

/-- The listing of a directory at rest. -/
theorem listStateDirectory_alone (files : Files) : ∃ w, listStateDirectory.run (.alone files) =
    (match files.root with
      | .missing => .ok none
      | .directory => .ok (some (files.names.map (·.1)))
      | .other => .error (thrownError
          "Reconciliation state directory is unreadable: configured state path is not a directory"), w) := by
  have halone : (World.alone files).files = files := rfl
  rw [listStateDirectory, Action.run_attempt, Action.run_bind, statRoot, observe_alone halone rfl]
  cases hroot : files.root with
  | missing => exact ⟨_, rfl⟩
  | other => exact ⟨_, rfl⟩
  | directory =>
    dsimp only
    rw [readdir, Action.run_bind, @observe_alone _ files _ _ _ ?_ ?_, if_pos hroot]
    · exact ⟨_, rfl⟩
    · rfl
    · rfl

/-- An inspection of a directory at rest that answers no lock and no order has a cleared
    directory before it. -/
theorem cleared_of_inspection {nowEpochMs : Rat} {inspection : LegacyQueueInspection}
    (hrun : ((inspectLegacyQueueState runtime nowEpochMs).run (.alone files)).1 = .ok inspection)
    (hlock : inspection.lock = .none) (horders : inspection.orderArtifactPaths = []) : Cleared files := by
  obtain ⟨entries, hlog, hreading, hnone⟩ := inspectLegacyQueueState_logs runtime nowEpochMs (.alone files)
  obtain ⟨watched, hwatched, hfound⟩ :=
    (inspectLegacyQueueState_watches runtime nowEpochMs (.alone files) (watches_alone files)).found
  have hsame : entries = watched := by
    rw [hwatched] at hlog
    exact (List.append_cancel_left hlog).symm
  subst hsame
  have hroot : ∀ {call : FileCall} {found : Files}, ⟨call, found, found⟩ ∈ entries → found = files := fun h => hfound _ h
  rcases hnone inspection hrun hlock horders with ⟨found, hmem, hmissing⟩ | ⟨listed, hmem, hcandidates, hgone⟩
  · rw [hroot hmem] at hmissing
    exact .inl hmissing
  · rw [hroot hmem] at hcandidates hgone
    obtain ⟨w, hlist⟩ := listStateDirectory_alone files
    rw [inspectLegacyQueueState, Action.run_bind, hlist] at hrun
    cases hkind : files.root with
    | missing => exact .inl hkind
    | other =>
      rw [hkind] at hrun
      cases hrun
    | directory =>
      refine .inr ⟨hkind, fun name hname => ⟨?_, hcandidates name hname⟩⟩
      rintro rfl
      rcases hgone with hgone | ⟨opened, hopened, habsent⟩
      · exact hgone hname
      · rw [hroot hopened, Files.lookup, Option.map_eq_none_iff, List.find?_eq_none] at habsent
        obtain ⟨entry, hentry, he⟩ := List.mem_map.mp hname
        exact habsent entry hentry (beq_iff_eq.mpr he)

/-- A cleared directory is answered as one. -/
theorem inspection_of_cleared {nowEpochMs : Rat} (h : Cleared files) :
    ((inspectLegacyQueueState runtime nowEpochMs).run (.alone files)).1 = .ok ⟨.none, none, [], []⟩ := by
  obtain ⟨w, hlist⟩ := listStateDirectory_alone files
  rw [inspectLegacyQueueState, Action.run_bind, hlist]
  rcases h with hroot | ⟨hroot, hnames⟩
  · rw [hroot]
    rfl
  · have hlock : (files.names.map (·.1)).contains LEGACY_LOCK_FILE_NAME = false := by
      rw [List.contains_eq_mem, decide_eq_false_iff_not]
      exact fun hmem => (hnames _ hmem).1 rfl
    have horders : (files.names.map (·.1)).filter isOrderCandidate = [] :=
      List.filter_eq_nil_iff.mpr fun name hname => by simp [(hnames name hname).2]
    simp only [hroot, inspectLock, hlock, horders, readOrders, Action.run_bind, Bool.false_eq_true, if_false,
      Action.run_pure, List.mergeSort_nil, List.map_nil]

end Rest

end GitCommitsPush.Reconciliation
