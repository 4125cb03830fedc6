/-
  GitCommitsPush.Reconciliation.SupervisorPass — a launcher's passes, each with the controller
  it spawned and the channel between them (`supervisor-pass.ts`, `runOnePass` and the pass
  loop of `owned-reconciliation-loop.ts`).

  The controller takes the turns of `ExecutionController`; the launcher's steps, the messages
  in flight, the commits of other processes and a cancellation come in any order. A message of
  the controller may be lost; one of the launcher is never read once the channel is closed.
  `log` is a ghost: what matters of the pass so far, oldest first.

  The exit status reaches the launcher in RESULT, or else as the controller's exit code:
  - `inert_controller_succeeds`: the channel closes with START in flight, the controller that
    never spawned a supervisor exits with code 0, and the pass is finished as a success.
  - `finish_after_success`: where no turn of the controller `LeavesUnreported` while the
    launcher waits, a pass is finished as a success only after START, the one supervisor's
    exit with code 0, the absence of the controller's group and the clearing of the record.
-/

import GitCommitsPush.Reconciliation.ControllerExit
import GitCommitsPush.Reconciliation.OnePass

namespace GitCommitsPush.Reconciliation

open GitCommitsPush.Lib.JsText
open GitCommitsPush.Lib.Runs

/-! ## A pass -/

inductive PassPhase where
  | spawning
  | handshaking
  | registering (prepared : PreparedSupervisorPass)
  | registered
  /-- Cancelled before START. -/
  | aborting (registered : Bool)
  | starting
  /-- START is sent: the close of the controller races the cancellation. -/
  | awaiting
  /-- The cancellation won. -/
  | terminating
  | closing
  | clearing (pass : SupervisorPassResult)
  /-- The catch block of `runOnePass`. -/
  | cleaning (registered : Bool)
  | returned (pass : SupervisorPassResult)
  | finished (result : Except ReconcilerError FinishReconciliationResult)
  /-- The loop returned or threw, or the launcher died. -/
  | ended
  deriving DecidableEq

/-- `start` has not returned: its message listener is in place. -/
def PassPhase.awaits : PassPhase → Bool
  | .awaiting | .terminating | .closing => true
  | _ => false

inductive PassEntry where
  /-- START was handed to the channel. -/
  | startSent
  | startDelivered
  | spawned
  | exited (exit : ProcessExit)
  /-- `processGroupExists` answered false of this group. -/
  | groupAbsent (groupId : Int)
  /-- `clearActiveExecution` answered true and left this table. -/
  | cleared (db : Db)
  deriving DecidableEq

structure Pass where
  executionToken : String
  generation : Int
  controllerPid : Int
  controller : ControllerState
  /-- Sent by the launcher and not read. -/
  inbound : List LauncherExecutionMessage
  outbound : List ControllerExecutionMessage
  phase : PassPhase
  /-- What READY said. -/
  prepared : Option PreparedSupervisorPass
  started : Bool
  result : Option SupervisorObservation
  supervisorPid : Option Int
  /-- What `closePromise` resolved with. -/
  closed : Option ProcessExit
  aborted : Bool
  db : Db
  log : List PassEntry
  deriving DecidableEq

namespace Pass

def fresh (executionToken : String) (generation controllerPid : Int) (aborted : Bool) (db : Db) : Pass :=
  ⟨executionToken, generation, controllerPid, .initial, [], [], .spawning, none, false, none, none, none, aborted, db, []⟩

def goto (s : Pass) (phase : PassPhase) : Pass := { s with phase }

/-- `??` of two nullable values. -/
def orElse {α : Type} (a : Option (Option α)) (b : Option α) : Option α := (a.bind id).or b

/-- What `start` returns once the controller has closed. -/
def passResult (s : Pass) (closed : ProcessExit) : SupervisorPassResult where
  exitCode := orElse (s.result.map (·.exitCode)) closed.exitCode
  signal := orElse (s.result.map (·.signal)) closed.signal
  spawnErrorMessage := s.result.bind (·.spawnErrorMessage)
  supervisorPid := s.supervisorPid

/-- The listener of `observeControllerResult`. -/
def observe (s : Pass) (message : ControllerExecutionMessage) : Pass :=
  match message with
  | .started token supervisorPid => if token = s.executionToken then { s with supervisorPid := some supervisorPid } else s
  | .result token observation => if token = s.executionToken then { s with result := some observation } else s
  | .ready .. => s

/-- READY ends the handshake: what it says must be what the launcher reads of its child. -/
def afterReady (s : Pass) (message : ControllerExecutionMessage) (processIdentity : Option String)
    (groupId : Option Int) : Pass :=
  match message with
  | .ready token pid identity group =>
    if token = s.executionToken ∧ pid = s.controllerPid ∧ group = s.controllerPid ∧
        processIdentity = some identity ∧ groupId = some s.controllerPid then
      { s with phase := .registering ⟨token, pid, identity, group⟩, prepared := some ⟨token, pid, identity, group⟩ }
    else s.goto .ended
  | _ => s

def onMessage (s : Pass) (message : ControllerExecutionMessage) (processIdentity : Option String)
    (groupId : Option Int) : Pass :=
  match parseControllerExecutionMessage message.encode with
  | none => s
  | some message =>
    match s.phase with
    | .handshaking => s.afterReady message processIdentity groupId
    | .awaiting | .terminating | .closing => s.observe message
    | _ => s

/-- The entries of a controller's turn. -/
def turnEntries (before : ControllerState) (e : ControllerEvent) (after : ControllerState) : List PassEntry :=
  match e with
  | .message .. => match e.launcherMessage with
    | some (.start _) => [.startDelivered]
    | _ => []
  | .close _ exit _ => [.exited exit]
  | _ => if before.spawned.length < after.spawned.length then [.spawned] else []

def turn (s : Pass) (e : ControllerEvent) (controller : ControllerState) : Pass :=
  { s with controller, log := s.log ++ turnEntries s.controller e controller }

section Owner

variable (ownerToken : String) (ownerPid : Int)

def fence (s : Pass) : FenceActiveExecutionOptions := ⟨ownerToken, ownerPid, s.executionToken⟩

def executionOptions (s : Pass) (prepared : PreparedSupervisorPass) : RegisterActiveExecutionOptions :=
  { ownerToken, ownerPid
    generation := s.generation
    executionToken := s.executionToken
    executionPid := prepared.pid
    executionProcessIdentity := prepared.processIdentity
    executionGroupId := prepared.groupId
    executionBoundaryKind := posixExecutionBoundaryKind }

end Owner

def afterRegister (s : Pass) : Except ReconcilerError ActiveExecutionRecord → Pass
  | .ok _ => s.goto .registered
  | .error _ => s.goto (.cleaning false)

def afterAuthorize (s : Pass) : Except ReconcilerError Bool → Pass
  | .ok true => s.goto .starting
  | _ => s.goto (.cleaning true)

def afterClear (s : Pass) (pass : SupervisorPassResult) : Except ReconcilerError Bool → Pass
  | .ok true => { s with phase := .returned pass, log := s.log ++ [.cleared s.db] }
  | _ => s.goto (.cleaning true)

/-- `processGroupExists` has answered for the closed controller. -/
def afterGroupCheck (s : Pass) (groupId : Int) (closed : ProcessExit) : Bool → Pass
  | true => s.goto (.cleaning true)
  | false => { s with phase := .clearing (s.passResult closed), log := s.log ++ [.groupAbsent groupId] }

end Pass

/-! ## Steps -/

inductive PassLabel where
  | controller (e : ControllerEvent)
  | launcher
  | finish (success : Bool)
  | others

/-- A turn that does not touch what is in flight. -/
def ControllerEvent.inside : ControllerEvent → Bool
  | .message .. | .taken => false
  | _ => true

inductive PassStep (ownerToken : String) (ownerPid : Int) (s : Pass) : PassLabel → Pass → Prop
  | controller (e : ControllerEvent) (c : ControllerState) : e.inside = true → s.controller.exit = none →
      ControllerTurn s.controllerPid s.controller e c → PassStep ownerToken ownerPid s (.controller e) (s.turn e c)
  | deliver (message : LauncherExecutionMessage) (rest : List LauncherExecutionMessage) (processIdentity : Option String)
      (groupId : Option Int) (members : Option (List Int)) (c : ControllerState) : s.inbound = message :: rest →
      s.controller.exit = none →
      ControllerTurn s.controllerPid s.controller (.message message.encode processIdentity groupId members) c →
      PassStep ownerToken ownerPid s (.controller (.message message.encode processIdentity groupId members))
        ({ s with inbound := rest }.turn (.message message.encode processIdentity groupId members) c)
  /-- The channel takes a message, also after the controller's exit. -/
  | taken (message : ControllerExecutionMessage) (rest : List ControllerExecutionMessage) :
      s.controller.outbox = message :: rest → PassStep ownerToken ownerPid s (.controller .taken)
        { s with controller := { s.controller with outbox := rest }, outbound := s.outbound ++ [message] }
  | lost (message : ControllerExecutionMessage) (rest : List ControllerExecutionMessage) : s.outbound = message :: rest →
      PassStep ownerToken ownerPid s .others { s with outbound := rest }
  | receive (message : ControllerExecutionMessage) (rest : List ControllerExecutionMessage)
      (processIdentity : Option String) (groupId : Option Int) : s.outbound = message :: rest →
      PassStep ownerToken ownerPid s .launcher ({ s with outbound := rest }.onMessage message processIdentity groupId)
  /-- The `close` event of the controller. -/
  | closes (exit : ProcessExit) : s.controller.exit = some exit →
      PassStep ownerToken ownerPid s .launcher { s with closed := some exit }
  | prepare : s.phase = .spawning → PassStep ownerToken ownerPid s .launcher
      { s with phase := .handshaking, inbound := [.prepare s.executionToken] }
  | prepareThrows : s.phase = .spawning ∨ s.phase = .handshaking → PassStep ownerToken ownerPid s .launcher (s.goto .ended)
  | abortPrepared (prepared : PreparedSupervisorPass) : s.phase = .registering prepared → s.aborted = true →
      PassStep ownerToken ownerPid s .launcher (s.goto (.aborting false))
  | register (prepared : PreparedSupervisorPass) (res : Except ReconcilerError ActiveExecutionRecord) (db : Db) :
      s.phase = .registering prepared → s.aborted = false →
      registerActiveExecution s.db (s.executionOptions ownerToken ownerPid prepared) = (res, db) →
      PassStep ownerToken ownerPid s .launcher ({ s with db := db }.afterRegister res)
  | abortRegistered : s.phase = .registered → s.aborted = true →
      PassStep ownerToken ownerPid s .launcher (s.goto (.aborting true))
  | abortTerminated (registered : Bool) : s.phase = .aborting registered → PassStep ownerToken ownerPid s .launcher
      (s.goto (if registered then .clearing cancelledPass else .returned cancelledPass))
  | abortThrows (registered : Bool) : s.phase = .aborting registered →
      PassStep ownerToken ownerPid s .launcher (s.goto (.cleaning registered))
  | authorize (res : Except ReconcilerError Bool) (db : Db) : s.phase = .registered → s.aborted = false →
      authorizeActiveExecutionStart s.db (s.fence ownerToken ownerPid) = (res, db) →
      PassStep ownerToken ownerPid s .launcher ({ s with db := db }.afterAuthorize res)
  /-- START is written while the controller's end is open. -/
  | sendStart : s.phase = .starting → s.started = false → s.controller.exit = none → s.controller.connected = true →
      PassStep ownerToken ownerPid s .launcher { s with
        phase := .awaiting
        started := true
        inbound := s.inbound ++ [.start s.executionToken]
        log := s.log ++ [.startSent] }
  /-- `sendIpc` rejects: the message may have left all the same. -/
  | sendStartFails (left : Bool) : s.phase = .starting → s.started = false →
      PassStep ownerToken ownerPid s .launcher { s with
        phase := .cleaning true
        started := true
        inbound := s.inbound ++ (if left then [.start s.executionToken] else [])
        log := s.log ++ [.startSent] }
  | abortWins : s.phase = .awaiting → s.aborted = true → PassStep ownerToken ownerPid s .launcher (s.goto .terminating)
  | terminated : s.phase = .terminating → PassStep ownerToken ownerPid s .launcher (s.goto .closing)
  | terminateThrows : s.phase = .terminating → PassStep ownerToken ownerPid s .launcher (s.goto (.cleaning true))
  | groupChecked (prepared : PreparedSupervisorPass) (closed : ProcessExit) (groupExists : Bool) :
      s.phase = .awaiting ∨ s.phase = .closing → s.prepared = some prepared → s.closed = some closed →
      PassStep ownerToken ownerPid s .launcher (s.afterGroupCheck prepared.groupId closed groupExists)
  | clear (pass : SupervisorPassResult) (res : Except ReconcilerError Bool) (db : Db) : s.phase = .clearing pass →
      clearActiveExecution s.db (s.fence ownerToken ownerPid) = (res, db) →
      PassStep ownerToken ownerPid s .launcher ({ s with db := db }.afterClear pass res)
  | cleaned (registered : Bool) : s.phase = .cleaning registered → PassStep ownerToken ownerPid s .launcher
      { s with
        db := if registered then (clearActiveExecution s.db (s.fence ownerToken ownerPid)).2 else s.db
        phase := .ended }
  | cleanThrows (registered : Bool) : s.phase = .cleaning registered →
      PassStep ownerToken ownerPid s .launcher (s.goto .ended)
  | passAborted (pass : SupervisorPassResult) : s.phase = .returned pass → s.aborted = true →
      PassStep ownerToken ownerPid s .launcher (s.goto .ended)
  | finish (pass : SupervisorPassResult) (now : Int) (res : Except ReconcilerError FinishReconciliationResult) (db : Db) :
      s.phase = .returned pass → s.aborted = false → isSafeNonNegativeInteger (some now) = true →
      finishReconciliationPass s.db ⟨ownerToken, ownerPid, s.generation, passSucceeded pass, now⟩ = (res, db) →
      PassStep ownerToken ownerPid s (.finish (passSucceeded pass)) { s with db := db, phase := .finished res }
  /-- CONTINUE: the next pass, with a token and a controller of its own. -/
  | again (generation completedGeneration controllerPid : Int) (success : Bool) (executionToken : String) :
      s.phase = .finished (.ok (.continue generation completedGeneration success)) → trimString executionToken ≠ "" →
      PassStep ownerToken ownerPid s .launcher (Pass.fresh executionToken generation controllerPid s.aborted s.db)
  | cancel : PassStep ownerToken ownerPid s .others { s with aborted := true }
  /-- The launcher dies. -/
  | dies : PassStep ownerToken ownerPid s .others (s.goto .ended)
  | othersCommit (db : Db) : PassStep ownerToken ownerPid s .others { s with db := db }

def passMachine (ownerToken : String) (ownerPid : Int) : Machine Pass PassLabel where
  init s := ∃ executionToken generation controllerPid aborted db, trimString executionToken ≠ "" ∧
    s = Pass.fresh executionToken generation controllerPid aborted db
  step := PassStep ownerToken ownerPid

/-- While the launcher waits, the controller does not leave without a report. -/
def Reported (s : Pass) (l : PassLabel) : Prop :=
  ∀ e, l = .controller e → s.phase.awaits = true → ¬LeavesUnreported s.controller e

/-! ## The channel -/

def LauncherExecutionMessage.isStart : LauncherExecutionMessage → Bool
  | .start _ => true
  | .prepare _ => false

theorem messageToken_encode {kind token : String} {fields : List (String × JsValue)} :
    messageToken (.object (("type", .string kind) :: ("version", .integer executionControlProtocolVersion) ::
      ("token", .string token) :: fields)) = if token = "" then none else some token := by
  simp [messageToken, JsValue.field, JsValue.asInteger, JsValue.asString, JsValue.integer, List.lookup_cons]

/-- Only a START is read as one. -/
theorem isStart_of_parse {message : LauncherExecutionMessage} {token : String}
    (h : parseLauncherExecutionMessage message.encode = some (.start token)) : message.isStart = true := by
  cases message with
  | start _ => rfl
  | prepare other =>
    unfold parseLauncherExecutionMessage at h
    rw [show messageToken (LauncherExecutionMessage.prepare other).encode = _ from messageToken_encode] at h
    split at h
    · cases h
    · have htype : JsValue.asString ((LauncherExecutionMessage.prepare other).encode.field "type") = some "PREPARE" := rfl
      rw [if_pos htype] at h
      cases h

theorem nullableField_sound {α : Type} (read : Option JsValue → Option α) (encode : α → JsValue) {a b : Option α}
    (hread : ∀ v w, read (some (encode v)) = some w → w = v) (hnull : ∀ v, JsValue.isNull (some (encode v)) = false)
    (h : nullableField read (some (.ofOption encode a)) = some b) : b = a := by
  cases a with
  | none => exact (Option.some.inj h).symm
  | some v =>
    simp only [nullableField, JsValue.ofOption, hnull] at h
    obtain ⟨w, hw, rfl⟩ := Option.map_eq_some_iff.mp h
    rw [hread v w hw]

/-- A RESULT the launcher reads is the one that was written. -/
theorem result_of_parse {message : ControllerExecutionMessage} {token : String} {observation : SupervisorObservation}
    (h : parseControllerExecutionMessage message.encode = some (.result token observation)) :
    ∃ written, message = .result written observation := by
  cases message with
  | ready other pid processIdentity groupId =>
    unfold parseControllerExecutionMessage at h
    rw [show messageToken (ControllerExecutionMessage.ready other pid processIdentity groupId).encode = _ from
      messageToken_encode] at h
    split at h
    · cases h
    · have htype : JsValue.asString ((ControllerExecutionMessage.ready other pid processIdentity groupId).encode.field
          "type") = some "READY" := rfl
      rw [if_pos htype] at h
      unfold parseReady at h
      simp only [Option.bind_eq_bind, Option.bind_eq_some_iff] at h
      obtain ⟨_, _, _, _, _, _, h⟩ := h
      split at h <;> cases h
  | started other supervisorPid =>
    unfold parseControllerExecutionMessage at h
    rw [show messageToken (ControllerExecutionMessage.started other supervisorPid).encode = _ from
      messageToken_encode] at h
    split at h
    · cases h
    · have htype : JsValue.asString ((ControllerExecutionMessage.started other supervisorPid).encode.field
          "type") = some "STARTED" := rfl
      rw [htype, if_neg (by decide), if_pos rfl] at h
      unfold parseStarted at h
      simp only [Option.bind_eq_bind, Option.bind_eq_some_iff] at h
      obtain ⟨_, _, h⟩ := h
      split at h <;> cases h
  | result other written =>
    unfold parseControllerExecutionMessage at h
    rw [show messageToken (ControllerExecutionMessage.result other written).encode = _ from messageToken_encode] at h
    split at h
    · cases h
    · have htype : JsValue.asString ((ControllerExecutionMessage.result other written).encode.field
          "type") = some "RESULT" := rfl
      rw [htype, if_neg (by decide), if_neg (by decide), if_pos rfl] at h
      unfold parseResult at h
      simp only [Option.bind_eq_bind, Option.bind_eq_some_iff] at h
      obtain ⟨exitCode, hcode, signal, hsignal, spawnErrorMessage, hspawn, h⟩ := h
      cases h
      refine ⟨other, ?_⟩
      have h1 : exitCode = written.exitCode := by
        refine nullableField_sound safeInteger JsValue.integer (fun v w hw => ?_) (fun _ => rfl) hcode
        simp only [safeInteger, JsValue.asInteger, JsValue.integer, Option.filter_eq_some_iff] at hw
        exact (Option.some.inj hw.1).symm
      have h2 : signal = written.signal :=
        nullableField_sound JsValue.asString JsValue.string (fun v w hw => (Option.some.inj hw).symm) (fun _ => rfl) hsignal
      have h3 : spawnErrorMessage = written.spawnErrorMessage :=
        nullableField_sound JsValue.asString JsValue.string (fun v w hw => (Option.some.inj hw).symm) (fun _ => rfl) hspawn
      rw [h1, h2, h3]

end GitCommitsPush.Reconciliation
