/-
  GitCommitsPush.Reconciliation.HistoricalRuns — the runs Turnlock left on disk
  (`historical-turnlock-state.ts`), read before the cutover.

  A run counts as finished when the operator's ledger closes it or when its own files show
  its success: a state of the version and identity expected and an event log that ends
  with the successful end of the run. `scanEvents_success` says what the one pass over the
  log proves, `inspectHistoricalTurnlockState_clear` what a report without a blocker does.
-/

import GitCommitsPush.Lib.JsonTree
import GitCommitsPush.Lib.JsText
import GitCommitsPush.Lib.Regex

namespace GitCommitsPush.Reconciliation.Cutover

open GitCommitsPush.Lib.JsText
open GitCommitsPush.Lib.JsonTree
open GitCommitsPush.Lib.Regex

/-! ## Reports -/

inductive BlockerKind where
  | activeTurnlockLock
  | incompatibleRun
  | invalidClosureLedger
  | malformedTurnlockLock
  | staleTurnlockLock
  | unreadableRunRoot
  | unexpectedRunEntry
  | liveQueueLock
  | staleQueueLock
  | malformedQueueLock
  | pendingOrder
  | unreadableOrderState
  | activeReconciler
  | staleReconciler
  | activeExecution
  | orphanExecution
  | pendingReconciliation
  | uncheckpointedReconcilerDb
  | corruptReconcilerDb
  | incompatibleReconcilerDb
  deriving DecidableEq, Repr

structure Blocker where
  detail : String
  kind : BlockerKind
  subject : String
  deriving DecidableEq, Repr

inductive RunClassification where
  | drained | explicitlyClosed | rejectedIncompatible
  deriving DecidableEq, Repr

structure HistoricalRunRecord where
  classification : RunClassification
  reason : String
  runId : String
  deriving DecidableEq, Repr

/-! ## Files -/

/-- What reading a file as UTF-8 gives. -/
inductive FileText where
  | missing | unreadable
  | text (contents : String)
  deriving DecidableEq, Repr

/-- The `.lock` of a run: none, one that is no regular file or cannot be looked at, or a file. -/
inductive LockFile where
  | absent | irregular
  | file (text : FileText)
  deriving DecidableEq, Repr

structure RunEntry where
  name : String
  isDirectory : Bool
  lock : LockFile
  state : FileText
  events : FileText
  deriving DecidableEq, Repr

inductive RunRoot where
  | missing | unreadable
  | entries (entries : List RunEntry)
  deriving DecidableEq, Repr

/-- What the libraries compute: `JSON.parse`, the value of a finite number, `String` of a
    value, `decodeTime` of `ulid` (whether it returns) and the timestamp schema of `zod`. -/
structure Libraries where
  parseJson : String → Option JsonValue
  finiteNumber : JsonValue → Option Rat
  stringOf : Option JsonValue → String
  decodesTime : String → Bool
  isTimestamp : String → Bool

/-! ## `historical-turnlock-state.ts` -/

def ORCHESTRATOR_NAME : String := "git-commits-push-tl"

/-- `/^[0-9A-HJKMNP-TV-Z]{26}$/`. -/
def RUN_ID_PATTERN : Re :=
  seqAll [.atStart, exactly 26 (fun c => isDigit c || inRange 'A' 'H' c || among "JKMN" c || inRange 'P' 'T' c ||
    inRange 'V' 'Z' c), .atEnd]

structure ClosureRecord where
  closedAt : String
  reason : String
  runId : String
  deriving DecidableEq, Repr

structure ClosureLedger where
  blockers : List Blocker
  closures : List ClosureRecord

def invalidClosureLedger (detail : String) : ClosureLedger := ⟨[⟨detail, .invalidClosureLedger, "closure-ledger"⟩], []⟩

section Inspect

variable (libraries : Libraries)

def isValidRunId (value : String) : Bool := test RUN_ID_PATTERN (units value) && libraries.decodesTime value

/-- A ledger entry that is a record; `none` when a field is missing or of no use. -/
def readClosure (value : JsonValue) : Option ClosureRecord := do
  let runId ← (← value.field "runId").asString
  let closedAt ← (← value.field "closedAt").asString
  let reason ← (← value.field "reason").asString
  if isValidRunId libraries runId = true ∧ libraries.isTimestamp closedAt = true ∧ trimString reason ≠ "" then
    return ⟨closedAt, reason, runId⟩
  else none

def readClosures (closures : List ClosureRecord) : List JsonValue → ClosureLedger
  | [] => ⟨[], closures⟩
  | value :: values =>
    if value.isRecord = false then invalidClosureLedger "closure ledger run entries must be objects"
    else match readClosure libraries value with
      | none => invalidClosureLedger "closure ledger entries require a ULID runId, timestamp, and reason"
      | some closure =>
        if closures.any (·.runId == closure.runId) = true then
          invalidClosureLedger ("closure ledger contains duplicate runId " ++ closure.runId)
        else readClosures (closures ++ [closure]) values

def isNumber (value : Option JsonValue) (n : Int) : Bool :=
  match value with
  | some (.number (some integer)) => integer == n
  | _ => false

def readClosureLedger : FileText → ClosureLedger
  | .missing => ⟨[], []⟩
  | .unreadable => invalidClosureLedger "closure ledger is unreadable"
  | .text contents => match libraries.parseJson contents with
    | none => invalidClosureLedger "closure ledger is not valid JSON"
    | some parsed => match parsed.field "runs" with
      | some (.array values) =>
        if isNumber (parsed.field "version") 1 = true then readClosures libraries [] values
        else invalidClosureLedger "closure ledger must contain version 1 and a runs array"
      | _ => invalidClosureLedger "closure ledger must contain version 1 and a runs array"

def inspectTurnlockLock (runId : String) (nowEpochMs : Rat) : LockFile → List Blocker
  | .absent => []
  | .file (.text contents) => match libraries.parseJson contents with
    | none => [⟨"Turnlock lock is malformed or unreadable", .malformedTurnlockLock, runId⟩]
    | some parsed => match (parsed.field "leaseUntilEpochMs").bind libraries.finiteNumber with
      | none => [⟨"Turnlock lock has no finite leaseUntilEpochMs", .malformedTurnlockLock, runId⟩]
      | some leaseUntilEpochMs =>
        if nowEpochMs ≤ leaseUntilEpochMs then [⟨"Turnlock run lease is still active", .activeTurnlockLock, runId⟩]
        else [⟨"expired Turnlock lock must be removed before cutover", .staleTurnlockLock, runId⟩]
  | _ => [⟨"Turnlock lock is malformed or unreadable", .malformedTurnlockLock, runId⟩]

structure TerminalEvent where
  reason : Option String
  terminalSuccess : Option Bool
  deriving DecidableEq, Repr

def isEnd (event : JsonValue) : Bool := (event.field "eventType").bind JsonValue.asString == some "orchestrator_end"

/-- The event is of the run and of this orchestrator; its success. -/
def endOf (runId : String) (event : JsonValue) : Option Bool :=
  if (event.field "runId").bind JsonValue.asString = some runId ∧
      (event.field "orchestratorName").bind JsonValue.asString = some ORCHESTRATOR_NAME then
    (event.field "success").bind JsonValue.asBool
  else none

/-- The loop over the lines, with what it carries from one event to the next. -/
def scanEvents (runId : String) (finalEventIsTerminal : Bool) (terminalSuccess : Option Bool) : List String → TerminalEvent
  | [] => if finalEventIsTerminal = true then ⟨none, terminalSuccess⟩ else ⟨none, none⟩
  | line :: lines =>
    if trimString line = "" then scanEvents runId finalEventIsTerminal terminalSuccess lines
    else match libraries.parseJson line with
      | none => ⟨some "events.ndjson contains malformed JSON", none⟩
      | some event =>
        if event.isRecord = false then ⟨some "events.ndjson contains a non-object event", none⟩
        else if isEnd event = false then scanEvents runId false terminalSuccess lines
        else match endOf runId event with
          | none => ⟨some "orchestrator_end event does not match its run", none⟩
          | some success => scanEvents runId true (some success) lines

def readTerminalEvent (runId : String) : FileText → TerminalEvent
  | .missing => ⟨none, none⟩
  | .unreadable => ⟨some "events.ndjson is unreadable", none⟩
  | .text contents => scanEvents libraries runId false none (splitString '\n' contents)

def readStateIncompatibilityReason (runId : String) : FileText → Option String
  | .text contents => match libraries.parseJson contents with
    | none => some "state.json is missing, malformed, or unreadable"
    | some state =>
      if state.isRecord = false then some "state.json is not an object"
      else if isNumber (state.field "schemaVersion") 2 = false then
        some ("state schemaVersion " ++ libraries.stringOf (state.field "schemaVersion") ++
          " is incompatible with Node cutover")
      else if (state.field "runId").bind JsonValue.asString ≠ some runId ∨
          (state.field "orchestratorName").bind JsonValue.asString ≠ some ORCHESTRATOR_NAME then
        some "state.json identity does not match its run directory"
      else none
  | _ => some "state.json is missing, malformed, or unreadable"

structure RunInspection where
  blockers : List Blocker
  classification : HistoricalRunRecord

def rejectedRun (runId : String) (blockers : List Blocker) (reason : String) : RunInspection :=
  ⟨blockers ++ [⟨reason, .incompatibleRun, runId⟩], ⟨.rejectedIncompatible, reason, runId⟩⟩

def inspectRun (entry : RunEntry) (closure : Option ClosureRecord) (nowEpochMs : Rat) : RunInspection :=
  let blockers := inspectTurnlockLock libraries entry.name nowEpochMs entry.lock
  match closure with
  | some closure => ⟨blockers, ⟨.explicitlyClosed, closure.closedAt ++ ": " ++ closure.reason, entry.name⟩⟩
  | none => match readStateIncompatibilityReason libraries entry.name entry.state with
    | some stateReason => rejectedRun entry.name blockers stateReason
    | none => match readTerminalEvent libraries entry.name entry.events with
      | ⟨some reason, _⟩ => rejectedRun entry.name blockers reason
      | ⟨none, some true⟩ => ⟨blockers, ⟨.drained, "terminal orchestrator_end success event", entry.name⟩⟩
      | ⟨none, some false⟩ => rejectedRun entry.name blockers
          "terminal orchestrator_end failure event requires explicit closure before cutover"
      | ⟨none, none⟩ => rejectedRun entry.name blockers
          "historical non-terminal run requires explicit closure before cutover"

structure HistoricalTurnlockInspection where
  blockers : List Blocker
  classifications : List HistoricalRunRecord

/-- The loop over the entries of the run root. -/
def inspectEntries (closures : List ClosureRecord) (nowEpochMs : Rat) : List RunEntry → HistoricalTurnlockInspection
  | [] => ⟨[], []⟩
  | entry :: entries =>
    let rest := inspectEntries closures nowEpochMs entries
    if entry.isDirectory = false ∨ isValidRunId libraries entry.name = false then
      ⟨⟨"Turnlock run root contains a non-run entry", .unexpectedRunEntry, entry.name⟩ :: rest.blockers,
        rest.classifications⟩
    else
      let result := inspectRun libraries entry (closures.find? (·.runId == entry.name)) nowEpochMs
      ⟨result.blockers ++ rest.blockers, result.classification :: rest.classifications⟩

/-- `compareStrings(left, right) <= 0`. -/
def compareStringsLe (left right : String) : Bool := unitsLe left right

/-- The closures of no run found, by run id. -/
def closedElsewhere (closures : List ClosureRecord) (classifications : List HistoricalRunRecord) : List HistoricalRunRecord :=
  ((closures.mergeSort fun left right => compareStringsLe left.runId right.runId).filter fun closure =>
    !classifications.any (·.runId == closure.runId)).map fun closure =>
      ⟨.explicitlyClosed, closure.closedAt ++ ": " ++ closure.reason, closure.runId⟩

def inspectHistoricalTurnlockState (ledgerText : FileText) (runs : RunRoot) (nowEpochMs : Rat) :
    HistoricalTurnlockInspection :=
  let ledger := readClosureLedger libraries ledgerText
  let classified (entries : List RunEntry) : HistoricalTurnlockInspection :=
    let found := inspectEntries libraries ledger.closures nowEpochMs
      (entries.mergeSort fun left right => compareStringsLe left.name right.name)
    ⟨ledger.blockers ++ found.blockers, (found.classifications ++ closedElsewhere ledger.closures found.classifications).mergeSort
      fun left right => compareStringsLe left.runId right.runId⟩
  match runs with
  | .unreadable => ⟨ledger.blockers ++ [⟨"Turnlock run root is unreadable", .unreadableRunRoot, "turnlock-runs"⟩], []⟩
  | .missing => classified []
  | .entries entries => classified entries

end Inspect

/-! ## The event log -/

section Spec

variable (libraries : Libraries)

def nonblank (lines : List String) : List String := lines.filter fun line => trimString line != ""

/-- An object, and of its run if it ends one. -/
def EventOf (runId line : String) : Prop :=
  ∃ event, libraries.parseJson line = some event ∧ event.isRecord = true ∧
    (isEnd event = true → (endOf runId event).isSome = true)

def Succeeds (runId line : String) : Prop :=
  ∃ event, libraries.parseJson line = some event ∧ isEnd event = true ∧ endOf runId event = some true

/-- Every line that is not blank is an event of the run, and the last is its successful end. -/
structure EndsInSuccess (runId : String) (lines : List String) : Prop where
  events : ∀ line ∈ nonblank lines, EventOf libraries runId line
  last : ∃ line, (nonblank lines).getLast? = some line ∧ Succeeds libraries runId line

/-- The last line ends the run in success; without a line, what was carried says so. -/
def LastSucceeds (runId : String) (finalEventIsTerminal : Bool) (terminalSuccess : Option Bool) (lines : List String) : Prop :=
  match (nonblank lines).getLast? with
  | none => finalEventIsTerminal = true ∧ terminalSuccess = some true
  | some line => Succeeds libraries runId line

variable {libraries}

theorem lastSucceeds_nil {runId : String} {finalEventIsTerminal : Bool} {terminalSuccess : Option Bool} :
    LastSucceeds libraries runId finalEventIsTerminal terminalSuccess [] ↔
      finalEventIsTerminal = true ∧ terminalSuccess = some true := Iff.rfl

/-- What is carried past an event is what the event says. -/
theorem lastSucceeds_cons {runId line : String} {lines : List String} (hline : trimString line ≠ "")
    {finalEventIsTerminal : Bool} {terminalSuccess : Option Bool} (carried : Bool) (success : Option Bool)
    (h : Succeeds libraries runId line ↔ carried = true ∧ success = some true) :
    LastSucceeds libraries runId finalEventIsTerminal terminalSuccess (line :: lines) ↔
      LastSucceeds libraries runId carried success lines := by
  have hnonblank : nonblank (line :: lines) = line :: nonblank lines := by simp [nonblank, hline]
  unfold LastSucceeds
  rw [hnonblank, List.getLast?_cons]
  cases (nonblank lines).getLast? with
  | none => exact h
  | some last => exact Iff.rfl

theorem scanEvents_success {runId : String} {finalEventIsTerminal : Bool} {terminalSuccess : Option Bool}
    {lines : List String} :
    scanEvents libraries runId finalEventIsTerminal terminalSuccess lines = ⟨none, some true⟩ ↔
      (∀ line ∈ nonblank lines, EventOf libraries runId line) ∧
        LastSucceeds libraries runId finalEventIsTerminal terminalSuccess lines := by
  induction lines generalizing finalEventIsTerminal terminalSuccess with
  | nil =>
    rw [lastSucceeds_nil]
    cases finalEventIsTerminal <;> simp [scanEvents, nonblank]
  | cons line lines ih =>
    by_cases hline : trimString line = ""
    · have hnonblank : nonblank (line :: lines) = nonblank lines := by simp [nonblank, hline]
      rw [scanEvents, if_pos hline, ih, LastSucceeds, LastSucceeds, hnonblank]
    · have hnonblank : nonblank (line :: lines) = line :: nonblank lines := by simp [nonblank, hline]
      have hlines : (∀ l ∈ nonblank (line :: lines), EventOf libraries runId l) ↔
          EventOf libraries runId line ∧ ∀ l ∈ nonblank lines, EventOf libraries runId l := by
        rw [hnonblank, List.forall_mem_cons]
      rw [scanEvents, if_neg hline, hlines]
      cases hparse : libraries.parseJson line with
      | none => simp [EventOf, hparse]
      | some event =>
        have hof : EventOf libraries runId line ↔
            event.isRecord = true ∧ (isEnd event = true → (endOf runId event).isSome = true) := by
          simp [EventOf, hparse]
        have hsucceeds : Succeeds libraries runId line ↔ isEnd event = true ∧ endOf runId event = some true := by
          simp [Succeeds, hparse]
        dsimp only
        by_cases hrecord : event.isRecord = true
        · rw [if_neg (by simp [hrecord]), hof]
          by_cases hend : isEnd event = true
          · rw [if_neg (by simp [hend])]
            cases hrun : endOf runId event with
            | none => simp [hend]
            | some success =>
              rw [lastSucceeds_cons hline true (some success) (by rw [hsucceeds, hrun]; simp [hend])]
              simp [hrecord, ih]
          · rw [Bool.not_eq_true] at hend
            rw [if_pos hend, lastSucceeds_cons hline false terminalSuccess
              (by rw [hsucceeds]; simp [hend]), ih]
            simp [hrecord, hend]
        · rw [Bool.not_eq_true] at hrecord
          simp [hrecord, hof]

theorem readTerminalEvent_success {runId : String} {events : FileText} :
    readTerminalEvent libraries runId events = ⟨none, some true⟩ ↔
      ∃ contents, events = .text contents ∧ EndsInSuccess libraries runId (splitString '\n' contents) := by
  cases events with
  | missing => simp [readTerminalEvent]
  | unreadable => simp [readTerminalEvent]
  | text contents =>
    rw [readTerminalEvent, scanEvents_success]
    have hlast : LastSucceeds libraries runId false none (splitString '\n' contents) ↔
        ∃ line, (nonblank (splitString '\n' contents)).getLast? = some line ∧ Succeeds libraries runId line := by
      unfold LastSucceeds
      cases (nonblank (splitString '\n' contents)).getLast? <;> simp
    rw [hlast]
    constructor
    · exact fun ⟨hevents, hlast⟩ => ⟨contents, rfl, hevents, hlast⟩
    · rintro ⟨_, htext, hevents, hlast⟩
      cases htext
      exact ⟨hevents, hlast⟩

end Spec

/-! ## Runs -/

/-- A state of the version and of the run. -/
def StateMatches (libraries : Libraries) (runId : String) (state : FileText) : Prop :=
  ∃ contents value, state = .text contents ∧ libraries.parseJson contents = some value ∧ value.isRecord = true ∧
    value.field "schemaVersion" = some (.number (some 2)) ∧ value.field "runId" = some (.string runId) ∧
    value.field "orchestratorName" = some (.string ORCHESTRATOR_NAME)

/-- The files of a run show its success. -/
def Drained (libraries : Libraries) (entry : RunEntry) : Prop :=
  StateMatches libraries entry.name entry.state ∧
    ∃ contents, entry.events = .text contents ∧ EndsInSuccess libraries entry.name (splitString '\n' contents)

/-- A run directory without a lock that the ledger closes or whose files show its success. -/
structure RunClear (libraries : Libraries) (closures : List ClosureRecord) (entry : RunEntry) : Prop where
  directory : entry.isDirectory = true
  runId : isValidRunId libraries entry.name = true
  unlocked : entry.lock = .absent
  settled : (∃ closure ∈ closures, closure.runId = entry.name) ∨ Drained libraries entry

section Runs

variable {libraries : Libraries}

theorem isNumber_iff {value : Option JsonValue} {n : Int} : isNumber value n = true ↔ value = some (.number (some n)) := by
  unfold isNumber
  split
  · simp
  · rename_i h
    exact ⟨fun hf => (by cases hf), fun hv => absurd hv (h n)⟩

theorem bind_asString_iff {value : Option JsonValue} {text : String} :
    value.bind JsonValue.asString = some text ↔ value = some (.string text) := by
  cases value with
  | none => simp
  | some value => simp [JsonValue.asString_eq_some]

theorem readStateIncompatibilityReason_none {runId : String} {state : FileText} :
    readStateIncompatibilityReason libraries runId state = none ↔ StateMatches libraries runId state := by
  cases state with
  | missing => simp [readStateIncompatibilityReason, StateMatches]
  | unreadable => simp [readStateIncompatibilityReason, StateMatches]
  | text contents =>
    unfold readStateIncompatibilityReason StateMatches
    cases hparse : libraries.parseJson contents with
    | none => simp [hparse]
    | some value =>
      by_cases hrecord : value.isRecord = true
      · by_cases hversion : isNumber (value.field "schemaVersion") 2 = true
        · have hfield := isNumber_iff.mp hversion
          rw [hfield] at hversion
          simp [hparse, hrecord, hfield, hversion, bind_asString_iff]
        · have hnot : value.field "schemaVersion" ≠ some (.number (some 2)) := fun h => hversion (isNumber_iff.mpr h)
          simp [hparse, hrecord, hversion, hnot]
      · simp [hparse, hrecord]

theorem inspectTurnlockLock_clear {runId : String} {nowEpochMs : Rat} {lock : LockFile} :
    inspectTurnlockLock libraries runId nowEpochMs lock = [] ↔ lock = .absent := by
  cases lock with
  | absent => simp [inspectTurnlockLock]
  | irregular => simp [inspectTurnlockLock]
  | file text =>
    cases text with
    | missing => simp [inspectTurnlockLock]
    | unreadable => simp [inspectTurnlockLock]
    | text contents =>
      simp only [inspectTurnlockLock, reduceCtorEq, iff_false]
      cases libraries.parseJson contents with
      | none => simp
      | some parsed =>
        dsimp only
        cases (parsed.field "leaseUntilEpochMs").bind libraries.finiteNumber with
        | none => simp
        | some leaseUntilEpochMs => by_cases h : nowEpochMs ≤ leaseUntilEpochMs <;> simp [h]

theorem inspectRun_clear {entry : RunEntry} {closure : Option ClosureRecord} {nowEpochMs : Rat} :
    (inspectRun libraries entry closure nowEpochMs).blockers = [] ↔
      entry.lock = .absent ∧ (closure.isSome = true ∨ Drained libraries entry) := by
  unfold inspectRun
  cases closure with
  | some closure => simp [inspectTurnlockLock_clear]
  | none =>
    have hdrained : Drained libraries entry ↔ readStateIncompatibilityReason libraries entry.name entry.state = none ∧
        readTerminalEvent libraries entry.name entry.events = ⟨none, some true⟩ := by
      rw [Drained, readStateIncompatibilityReason_none, readTerminalEvent_success]
    rw [hdrained]
    cases hstate : readStateIncompatibilityReason libraries entry.name entry.state with
    | some reason => simp [rejectedRun]
    | none =>
      cases hterminal : readTerminalEvent libraries entry.name entry.events with
      | mk reason success =>
        cases reason with
        | some reason => simp [rejectedRun]
        | none =>
          cases success with
          | none => simp [rejectedRun]
          | some success => cases success <;> simp [rejectedRun, inspectTurnlockLock_clear]

theorem inspectEntries_clear {closures : List ClosureRecord} {nowEpochMs : Rat} {entries : List RunEntry} :
    (inspectEntries libraries closures nowEpochMs entries).blockers = [] ↔
      ∀ entry ∈ entries, RunClear libraries closures entry := by
  induction entries with
  | nil => simp [inspectEntries]
  | cons entry entries ih =>
    rw [List.forall_mem_cons, ← ih]
    by_cases hrun : entry.isDirectory = false ∨ isValidRunId libraries entry.name = false
    · have hnot : ¬ RunClear libraries closures entry := by
        rintro ⟨hdirectory, hid, _, _⟩
        rw [hdirectory, hid] at hrun
        simp at hrun
      simp [inspectEntries, hrun, hnot]
    · have hdirectory : entry.isDirectory = true ∧ isValidRunId libraries entry.name = true := by simpa using hrun
      have hclosure : (closures.find? (·.runId == entry.name)).isSome = true ↔
          ∃ closure ∈ closures, closure.runId = entry.name := by simp
      have hclear : RunClear libraries closures entry ↔
          (inspectRun libraries entry (closures.find? (·.runId == entry.name)) nowEpochMs).blockers = [] := by
        rw [inspectRun_clear, hclosure]
        exact ⟨fun h => ⟨h.unlocked, h.settled⟩, fun h => ⟨hdirectory.1, hdirectory.2, h.1, h.2⟩⟩
      simp [inspectEntries, hrun, hclear]

end Runs

/-! ## The ledger -/

/-- No ledger, or a valid one: version 1, an array of closures, each of a run of its own. -/
inductive LedgerHolds (libraries : Libraries) : FileText → List ClosureRecord → Prop
  | absent : LedgerHolds libraries .missing []
  | valid {contents : String} {parsed : JsonValue} {values : List JsonValue} {closures : List ClosureRecord}
      (hparse : libraries.parseJson contents = some parsed)
      (hversion : parsed.field "version" = some (.number (some 1)))
      (hruns : parsed.field "runs" = some (.array values))
      (hread : values.mapM (readClosure libraries) = some closures)
      (hdistinct : (closures.map (·.runId)).Nodup) : LedgerHolds libraries (.text contents) closures

section Ledger

variable {libraries : Libraries}

/-- A closure names a run by its id, with a timestamp and a reason. -/
theorem readClosure_eq_some {value : JsonValue} {closure : ClosureRecord} :
    readClosure libraries value = some closure ↔
      value.field "runId" = some (.string closure.runId) ∧ value.field "closedAt" = some (.string closure.closedAt) ∧
        value.field "reason" = some (.string closure.reason) ∧ isValidRunId libraries closure.runId = true ∧
        libraries.isTimestamp closure.closedAt = true ∧ trimString closure.reason ≠ "" := by
  obtain ⟨closedAt, reason, runId⟩ := closure
  simp only [readClosure, Option.bind_eq_bind, Option.bind_eq_some_iff, JsonValue.asString_eq_some]
  constructor
  · rintro ⟨_, hid, _, rfl, _, hclosedAt, _, rfl, _, hreason, _, rfl, hguard⟩
    split at hguard
    · rename_i hvalid
      cases hguard
      exact ⟨hid, hclosedAt, hreason, hvalid⟩
    · cases hguard
  · rintro ⟨hid, hclosedAt, hreason, hvalid⟩
    exact ⟨_, hid, _, rfl, _, hclosedAt, _, rfl, _, hreason, _, rfl, if_pos hvalid⟩

theorem isRecord_of_field {value : JsonValue} {name : String} {found : JsonValue} (h : value.field name = some found) :
    value.isRecord = true := by
  cases value <;> first | rfl | cases h

theorem invalidClosureLedger_ne {detail : String} {closures : List ClosureRecord} :
    invalidClosureLedger detail ≠ ⟨[], closures⟩ := by simp [invalidClosureLedger]

theorem readClosures_clear {values : List JsonValue} {closures found : List ClosureRecord}
    (hdistinct : (closures.map (·.runId)).Nodup) :
    readClosures libraries closures values = ⟨[], found⟩ ↔ ∃ read, values.mapM (readClosure libraries) = some read ∧
      found = closures ++ read ∧ (found.map (·.runId)).Nodup := by
  induction values generalizing closures with
  | nil =>
    simp only [readClosures, List.mapM_nil, ClosureLedger.mk.injEq, true_and]
    constructor
    · rintro rfl
      exact ⟨[], rfl, (List.append_nil _).symm, hdistinct⟩
    · rintro ⟨read, hread, rfl, _⟩
      cases hread
      exact (List.append_nil _).symm
  | cons value values ih =>
    rw [readClosures, List.mapM_cons]
    cases hvalue : readClosure libraries value with
    | none =>
      constructor
      · intro h
        split at h <;> exact absurd h invalidClosureLedger_ne
      · rintro ⟨_, hread, _⟩
        cases hread
    | some closure =>
      have hrecord : value.isRecord = true := isRecord_of_field (readClosure_eq_some.mp hvalue).1
      rw [if_neg (by simp [hrecord])]
      dsimp only
      by_cases hseen : closures.any (·.runId == closure.runId) = true
      · rw [if_pos hseen]
        refine ⟨fun h => absurd h invalidClosureLedger_ne, ?_⟩
        rintro ⟨read, hread, rfl, hnodup⟩
        obtain ⟨rest, -, rfl⟩ : ∃ rest, values.mapM (readClosure libraries) = some rest ∧ closure :: rest = read := by
          simpa [Option.bind_eq_some_iff] using hread
        obtain ⟨other, hother, hsame⟩ := List.any_eq_true.mp hseen
        rw [List.map_append, List.nodup_append] at hnodup
        exact absurd (beq_iff_eq.mp hsame)
          (hnodup.2.2 _ (List.mem_map_of_mem hother) _ (List.mem_map_of_mem List.mem_cons_self))
      · have hfresh : ((closures ++ [closure]).map (·.runId)).Nodup := by
          rw [List.map_append, List.nodup_append]
          refine ⟨hdistinct, by simp, ?_⟩
          intro a ha b hb
          obtain ⟨other, hother, rfl⟩ := List.mem_map.mp ha
          rw [List.map_singleton, List.mem_singleton] at hb
          subst hb
          exact fun he => hseen (List.any_eq_true.mpr ⟨other, hother, beq_iff_eq.mpr he⟩)
        rw [if_neg hseen, ih hfresh]
        simp only [Option.pure_def, Option.bind_eq_bind, Option.bind_some, Option.bind_eq_some_iff]
        constructor
        · rintro ⟨rest, hrest, rfl, hnodup⟩
          exact ⟨closure :: rest, ⟨rest, hrest, rfl⟩, by simp, hnodup⟩
        · rintro ⟨read, ⟨rest, hrest, hread⟩, rfl, hnodup⟩
          cases hread
          exact ⟨rest, hrest, by simp, hnodup⟩

theorem readClosureLedger_clear {ledgerText : FileText} {closures : List ClosureRecord} :
    readClosureLedger libraries ledgerText = ⟨[], closures⟩ ↔ LedgerHolds libraries ledgerText closures := by
  cases ledgerText with
  | missing =>
    constructor
    · intro h
      cases h
      exact .absent
    · intro h
      cases h
      rfl
  | unreadable => exact ⟨fun h => absurd h invalidClosureLedger_ne, fun h => (by cases h)⟩
  | text contents =>
    constructor
    · intro h
      unfold readClosureLedger at h
      dsimp only at h
      split at h
      · exact absurd h invalidClosureLedger_ne
      · rename_i parsed hparse
        split at h
        · rename_i values hruns
          by_cases hversion : isNumber (parsed.field "version") 1 = true
          · rw [if_pos hversion, readClosures_clear (by simp)] at h
            obtain ⟨read, hread, rfl, hnodup⟩ := h
            exact .valid hparse (isNumber_iff.mp hversion) hruns hread hnodup
          · rw [if_neg hversion] at h
            exact absurd h invalidClosureLedger_ne
        · exact absurd h invalidClosureLedger_ne
    · intro h
      cases h with
      | valid hparse hversion hruns hread hdistinct =>
        simp only [readClosureLedger, hparse, hruns, isNumber_iff.mpr hversion, if_true]
        exact (readClosures_clear (by simp)).mpr ⟨closures, hread, rfl, hdistinct⟩

theorem readClosureLedger_blockers {ledgerText : FileText} (h : (readClosureLedger libraries ledgerText).blockers = []) :
    LedgerHolds libraries ledgerText (readClosureLedger libraries ledgerText).closures :=
  readClosureLedger_clear.mp (by rw [← h])

end Ledger

/-! ## The report -/

/-- The entries of a run root that can be listed or is not there. -/
def RunRoot.listed : RunRoot → Option (List RunEntry)
  | missing => some []
  | unreadable => none
  | entries found => some found

theorem inspectHistoricalTurnlockState_clear {libraries : Libraries} {ledgerText : FileText} {runs : RunRoot}
    {nowEpochMs : Rat} :
    (inspectHistoricalTurnlockState libraries ledgerText runs nowEpochMs).blockers = [] ↔
      ∃ closures entries, LedgerHolds libraries ledgerText closures ∧ runs.listed = some entries ∧
        ∀ entry ∈ entries, RunClear libraries closures entry := by
  have hclassified : ∀ entries : List RunEntry,
      (readClosureLedger libraries ledgerText).blockers ++ (inspectEntries libraries
        (readClosureLedger libraries ledgerText).closures nowEpochMs
        (entries.mergeSort fun left right => compareStringsLe left.name right.name)).blockers = [] ↔
      ∃ closures, LedgerHolds libraries ledgerText closures ∧ ∀ entry ∈ entries, RunClear libraries closures entry := by
    intro entries
    rw [List.append_eq_nil_iff, inspectEntries_clear]
    simp only [List.mem_mergeSort]
    constructor
    · exact fun ⟨hledger, hentries⟩ => ⟨_, readClosureLedger_blockers hledger, hentries⟩
    · rintro ⟨closures, hholds, hentries⟩
      rw [readClosureLedger_clear.mpr hholds]
      exact ⟨rfl, hentries⟩
  cases runs with
  | missing =>
    rw [inspectHistoricalTurnlockState]
    refine (hclassified []).trans ⟨fun ⟨closures, h⟩ => ⟨closures, [], h.1, rfl, h.2⟩, ?_⟩
    rintro ⟨closures, entries, hledger, hlisted, hentries⟩
    cases hlisted
    exact ⟨closures, hledger, hentries⟩
  | unreadable =>
    constructor
    · intro h
      simp [inspectHistoricalTurnlockState] at h
    · rintro ⟨_, _, _, hlisted, _⟩
      cases hlisted
  | entries found =>
    rw [inspectHistoricalTurnlockState]
    refine (hclassified found).trans ⟨fun ⟨closures, h⟩ => ⟨closures, found, h.1, rfl, h.2⟩, ?_⟩
    rintro ⟨closures, entries, hledger, hlisted, hentries⟩
    cases hlisted
    exact ⟨closures, hledger, hentries⟩

end GitCommitsPush.Reconciliation.Cutover
