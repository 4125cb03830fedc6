/-
  GitCommitsPush.Reconciliation.ExecutionController — the controller process of one
  execution (`entrypoints/execution-controller.ts`) and the messages it exchanges with
  its launcher (`execution-control-protocol.ts`).

  The handlers are asynchronous: one runs to its `await` in a single turn and leaves a
  `Suspension`, which any later turn may resume; other events are handled in between.
  What a turn reads of the world (the process identity, the members of the group, the
  pid of a spawned child, the end of a child) comes with its event.

  START's handler looks at `supervisor` before it waits at its barrier and spawns after:
  - `two_supervisors`: a second START that arrives during the wait passes the same look,
    and both spawn.
  - `one_supervisor`: a spawn happens only after a START with the token of the first
    PREPARE, connected and before any termination; and if no such START arrives while
    another waits, at most one supervisor is ever spawned.
-/

import GitCommitsPush.Lib.Runs
import GitCommitsPush.Reconciliation.ReconcilerState

namespace GitCommitsPush.Reconciliation

open GitCommitsPush.Lib.Runs

/-! ## The protocol -/

/-- A value read from the channel. A number that is no integer carries nothing, an array
    is an object without the fields asked for. -/
inductive JsValue where
  | null
  | bool (value : Bool)
  | number (integer : Option Int)
  | string (value : String)
  | object (fields : List (String × JsValue))

namespace JsValue

def field (value : JsValue) (name : String) : Option JsValue :=
  match value with
  | .object fields => fields.lookup name
  | _ => none

def asString : Option JsValue → Option String
  | some (.string value) => some value
  | _ => none

def asInteger : Option JsValue → Option Int
  | some (.number integer) => integer
  | _ => none

def isNull : Option JsValue → Bool
  | some .null => true
  | _ => false

end JsValue

def executionControlProtocolVersion : Int := 1

inductive LauncherExecutionMessage where
  | prepare (token : String)
  | start (token : String)
  deriving DecidableEq, Repr

/-- The token of a message of this protocol version. -/
def messageToken (value : JsValue) : Option String :=
  if JsValue.asInteger (value.field "version") ≠ some executionControlProtocolVersion then none
  else match JsValue.asString (value.field "token") with
    | some token => if token = "" then none else some token
    | none => none

def parseLauncherExecutionMessage (value : JsValue) : Option LauncherExecutionMessage :=
  match messageToken value with
  | none => none
  | some token =>
    if JsValue.asString (value.field "type") = some "PREPARE" then some (.prepare token)
    else if JsValue.asString (value.field "type") = some "START" then some (.start token)
    else none

def LauncherExecutionMessage.encode : LauncherExecutionMessage → JsValue
  | .prepare token => .object [("type", .string "PREPARE"), ("version", .number (some executionControlProtocolVersion)),
      ("token", .string token)]
  | .start token => .object [("type", .string "START"), ("version", .number (some executionControlProtocolVersion)),
      ("token", .string token)]

structure SupervisorObservation where
  exitCode : Option Int
  signal : Option String
  spawnErrorMessage : Option String
  deriving DecidableEq, Repr

inductive ControllerExecutionMessage where
  | ready (token : String) (pid : Int) (processIdentity : String) (groupId : Int)
  | started (token : String) (supervisorPid : Int)
  | result (token : String) (observation : SupervisorObservation)
  deriving DecidableEq, Repr

def ControllerExecutionMessage.token : ControllerExecutionMessage → String
  | .ready token .. | .started token _ | .result token _ => token

/-- A field that is null or of the kind read. -/
def nullableField {α : Type} (read : Option JsValue → Option α) (value : Option JsValue) : Option (Option α) :=
  if JsValue.isNull value then some none else (read value).map some

def safeInteger (value : Option JsValue) : Option Int :=
  (JsValue.asInteger value).filter Lib.JsText.isSafeInteger

def parseReady (value : JsValue) (token : String) : Option ControllerExecutionMessage := do
  let pid ← JsValue.asInteger (value.field "pid")
  let processIdentity ← JsValue.asString (value.field "processIdentity")
  let groupId ← JsValue.asInteger (value.field "groupId")
  if isPositiveInteger (some pid) && processIdentity != "" && isPositiveInteger (some groupId) then
    some (.ready token pid processIdentity groupId)
  else none

def parseStarted (value : JsValue) (token : String) : Option ControllerExecutionMessage := do
  let supervisorPid ← JsValue.asInteger (value.field "supervisorPid")
  if isPositiveInteger (some supervisorPid) then some (.started token supervisorPid) else none

def parseResult (value : JsValue) (token : String) : Option ControllerExecutionMessage := do
  let exitCode ← nullableField safeInteger (value.field "exitCode")
  let signal ← nullableField JsValue.asString (value.field "signal")
  let spawnErrorMessage ← nullableField JsValue.asString (value.field "spawnErrorMessage")
  some (.result token ⟨exitCode, signal, spawnErrorMessage⟩)

def parseControllerExecutionMessage (value : JsValue) : Option ControllerExecutionMessage :=
  match messageToken value with
  | none => none
  | some token =>
    if JsValue.asString (value.field "type") = some "READY" then parseReady value token
    else if JsValue.asString (value.field "type") = some "STARTED" then parseStarted value token
    else if JsValue.asString (value.field "type") = some "RESULT" then parseResult value token
    else none

def JsValue.ofOption {α : Type} (encode : α → JsValue) : Option α → JsValue
  | some a => encode a
  | none => .null

def JsValue.integer (n : Int) : JsValue := .number (some n)

def ControllerExecutionMessage.encode : ControllerExecutionMessage → JsValue
  | .ready token pid processIdentity groupId => .object [("type", .string "READY"),
      ("version", .integer executionControlProtocolVersion), ("token", .string token), ("pid", .integer pid),
      ("processIdentity", .string processIdentity), ("groupId", .integer groupId)]
  | .started token supervisorPid => .object [("type", .string "STARTED"),
      ("version", .integer executionControlProtocolVersion), ("token", .string token),
      ("supervisorPid", .integer supervisorPid)]
  | .result token observation => .object [("type", .string "RESULT"),
      ("version", .integer executionControlProtocolVersion), ("token", .string token),
      ("exitCode", .ofOption .integer observation.exitCode), ("signal", .ofOption .string observation.signal),
      ("spawnErrorMessage", .ofOption .string observation.spawnErrorMessage)]

theorem messageToken_object {kind token : String} {fields : List (String × JsValue)} (htoken : token ≠ "") :
    messageToken (.object (("type", .string kind) :: ("version", .integer executionControlProtocolVersion) ::
      ("token", .string token) :: fields)) = some token := by
  simp [messageToken, JsValue.field, JsValue.asInteger, JsValue.asString, JsValue.integer, List.lookup_cons, htoken]

/-- The controller reads back what the launcher sends. -/
theorem parseLauncherExecutionMessage_encode {message : LauncherExecutionMessage}
    (h : (match message with | .prepare token | .start token => token) ≠ "") :
    parseLauncherExecutionMessage message.encode = some message := by
  cases message with
  | prepare token =>
    unfold parseLauncherExecutionMessage
    rw [show messageToken (LauncherExecutionMessage.prepare token).encode = some token from messageToken_object h]
    rfl
  | start token =>
    unfold parseLauncherExecutionMessage
    rw [show messageToken (LauncherExecutionMessage.start token).encode = some token from messageToken_object h]
    rfl

theorem nullableField_ofOption {α : Type} {read : Option JsValue → Option α} {encode : α → JsValue} {a : Option α}
    (hread : ∀ v, a = some v → read (some (encode v)) = some v) (hnull : ∀ v, JsValue.isNull (some (encode v)) = false) :
    nullableField read (some (.ofOption encode a)) = some a := by
  cases a with
  | none => rfl
  | some v => simp [nullableField, JsValue.ofOption, hnull, hread v rfl]

/-- The launcher reads back the result the controller sends. -/
theorem parseControllerExecutionMessage_result {token : String} {observation : SupervisorObservation} (htoken : token ≠ "")
    (hcode : ∀ code, observation.exitCode = some code → Lib.JsText.isSafeInteger code = true) :
    parseControllerExecutionMessage (ControllerExecutionMessage.result token observation).encode =
      some (.result token observation) := by
  have hexit : nullableField safeInteger (some (.ofOption .integer observation.exitCode)) = some observation.exitCode := by
    refine nullableField_ofOption (fun v hv => ?_) fun _ => rfl
    simp [safeInteger, JsValue.asInteger, JsValue.integer, Option.filter, hcode v hv]
  have hsignal : nullableField JsValue.asString (some (.ofOption .string observation.signal)) = some observation.signal :=
    nullableField_ofOption (fun _ _ => rfl) fun _ => rfl
  have hspawn : nullableField JsValue.asString (some (.ofOption .string observation.spawnErrorMessage)) =
      some observation.spawnErrorMessage := nullableField_ofOption (fun _ _ => rfl) fun _ => rfl
  unfold parseControllerExecutionMessage
  rw [show messageToken (ControllerExecutionMessage.result token observation).encode = some token from
    messageToken_object htoken]
  show parseResult (ControllerExecutionMessage.result token observation).encode token = _
  unfold parseResult
  rw [show (ControllerExecutionMessage.result token observation).encode.field "exitCode" =
      some (.ofOption .integer observation.exitCode) from rfl,
    show (ControllerExecutionMessage.result token observation).encode.field "signal" =
      some (.ofOption .string observation.signal) from rfl,
    show (ControllerExecutionMessage.result token observation).encode.field "spawnErrorMessage" =
      some (.ofOption .string observation.spawnErrorMessage) from rfl, hexit, hsignal, hspawn]
  rfl

/-! ## The controller -/

/-- How a process ended, as its parent's `close` event tells. -/
inductive ProcessExit where
  | code (exitCode : Int)
  | killed (signal : String)
  deriving DecidableEq, Repr

def ProcessExit.exitCode : ProcessExit → Option Int
  | .code exitCode => some exitCode
  | .killed _ => none

def ProcessExit.signal : ProcessExit → Option String
  | .code _ => none
  | .killed signal => some signal

/-- A handler at its `await`. -/
inductive Suspension where
  | ready (token processIdentity : String) (groupId : Int)
  | start
  /-- After the spawn of this child, before STARTED is sent. -/
  | started (child : Nat) (supervisorPid : Int)
  | disconnect
  deriving DecidableEq, Repr

/-- What a `send` callback does. -/
inductive Sending where
  | ready
  | started
  | result (exitCode : Int)
  deriving DecidableEq, Repr

/-- A child the controller spawned; one that could not be has no pid. -/
structure Supervisor where
  pid : Option Int
  spawnErrorMessage : Option String
  closed : Option ProcessExit
  deriving DecidableEq, Repr

structure ControllerState where
  executionToken : Option String
  /-- The child the variable holds. -/
  supervisor : Option Nat
  supervisorObservation : Option SupervisorObservation
  terminationStarted : Bool
  resultSending : Bool
  connected : Bool
  /-- The channel has closed and the event has not been handled. -/
  disconnecting : Bool
  suspended : List Suspension
  sending : List Sending
  /-- Every child spawned, oldest first. -/
  spawned : List Supervisor
  /-- A `close` listener: the child it is on, and the child whose handler put it there. -/
  listeners : List (Nat × Nat)
  /-- What has been written to the channel and not yet taken from it. -/
  outbox : List ControllerExecutionMessage
  /-- Every answer of `listOwnGroupMembers`, oldest first. -/
  observed : List (Option (List Int))
  exit : Option ProcessExit
  deriving DecidableEq, Repr

namespace ControllerState

def initial : ControllerState :=
  ⟨none, none, none, false, false, true, false, [], [], [], [], [], [], none⟩

def completed (s : ControllerState) : Bool := s.exit.isSome

/-- `process.exit`: the parent sees the code modulo 256. -/
def exitController (s : ControllerState) (exitCode : Int) : ControllerState :=
  if s.completed then s else { s with exit := some (.code (exitCode % 256)) }

section Turns

variable (ownPid : Int)

/-- `members` is what `listOwnGroupMembers` answers. -/
def finishWhenQuiescent (s : ControllerState) (members : Option (List Int)) : ControllerState :=
  if s.terminationStarted = false ∨ s.completed ∨ s.resultSending then s
  else
    let s := { s with observed := s.observed ++ [members] }
    match members with
    | none => s
    | some pids =>
      if pids.any (· != ownPid) then s
      else
        let exitCode := (s.supervisorObservation.bind (·.exitCode)).getD 1
        match s.supervisorObservation, s.executionToken with
        | some observation, some token =>
          if s.connected then
            { s with
              resultSending := true
              outbox := s.outbox ++ [.result token observation]
              sending := s.sending ++ [.result exitCode] }
          else s.exitController exitCode
        | _, _ => s.exitController exitCode

/-- SIGTERM goes to the whole group; what it does to the children is theirs to tell. -/
def beginTermination (s : ControllerState) (members : Option (List Int)) : ControllerState :=
  if s.terminationStarted ∨ s.completed then s
  else { s with terminationStarted := true }.finishWhenQuiescent ownPid members

def complete (s : ControllerState) (sending : Sending) (failed : Bool) (members : Option (List Int)) : ControllerState :=
  match sending with
  | .ready => if failed then s.exitController 2 else s
  | .started => if failed then s.beginTermination ownPid members else s
  | .result exitCode => s.exitController exitCode

def sendMessage (s : ControllerState) (message : ControllerExecutionMessage) (onComplete : Sending)
    (members : Option (List Int)) : ControllerState :=
  if s.connected then { s with outbox := s.outbox ++ [message], sending := s.sending ++ [onComplete] }
  else s.complete ownPid onComplete true members

/-- The first turn of a message's handler. `processIdentity` and `groupId` are what the
    process reads of itself. -/
def onMessage (s : ControllerState) (rawMessage : JsValue) (processIdentity : Option String) (groupId : Option Int)
    (members : Option (List Int)) : ControllerState :=
  match parseLauncherExecutionMessage rawMessage with
  | none => if s.supervisor = none then s.exitController 2 else s.beginTermination ownPid members
  | some (.prepare token) =>
    if s.executionToken ≠ none ∨ s.supervisor ≠ none then s.exitController 2
    else
      let s := { s with executionToken := some token }
      match processIdentity with
      | none => s.exitController 2
      | some identity =>
        if groupId ≠ some ownPid then s.exitController 2
        else { s with suspended := s.suspended ++ [.ready token identity ownPid] }
  | some (.start token) =>
    if s.executionToken = none ∨ s.executionToken ≠ some token ∨ s.supervisor ≠ none ∨ s.terminationStarted then
      s.exitController 2
    else { s with suspended := s.suspended ++ [.start] }

def onDisconnect (s : ControllerState) : ControllerState :=
  let s := { s with disconnecting := false }
  if s.supervisor = none then s.exitController 0 else { s with suspended := s.suspended ++ [.disconnect] }

/-- `supervisor.once("close", …)` on the child the variable holds now. -/
def listen (s : ControllerState) (child : Nat) : ControllerState :=
  match s.supervisor with
  | some current => { s with listeners := s.listeners ++ [(current, child)] }
  | none => s

/-- START's handler after its barrier; the child gets a pid unless it cannot be spawned. -/
def spawnSupervisor (s : ControllerState) (pid : Option Int) : ControllerState :=
  let child := s.spawned.length
  let s : ControllerState := { s with supervisor := some child, spawned := s.spawned ++ [⟨pid, none, none⟩] }
  match pid with
  | some supervisorPid => { s with suspended := s.suspended ++ [.started child supervisorPid] }
  | none => s.listen child

/-- A handler after its `await`. -/
def resume (s : ControllerState) (suspension : Suspension) (pid : Option Int) (members : Option (List Int)) : ControllerState :=
  match suspension with
  | .ready token processIdentity groupId =>
    if s.connected = false ∨ s.completed then s
    else s.sendMessage ownPid (.ready token ownPid processIdentity groupId) .ready members
  | .start => if s.connected = false ∨ s.completed ∨ s.terminationStarted then s else s.spawnSupervisor pid
  | .started child supervisorPid =>
    (s.sendMessage ownPid (.started (s.executionToken.getD "") supervisorPid) .started members).listen child
  | .disconnect => s.beginTermination ownPid members

/-- One `close` listener: `own` is the child of the handler that put it there. -/
def onClose (s : ControllerState) (own : Nat) (exit : ProcessExit) (members : Option (List Int)) : ControllerState :=
  let observation : SupervisorObservation :=
    ⟨exit.exitCode, exit.signal, s.spawned[own]?.bind (·.spawnErrorMessage)⟩
  { s with supervisorObservation := some observation }.beginTermination ownPid members

/-- A child's `close` event runs the listeners on it, in order, while the process lives. -/
def closeChild (s : ControllerState) (child : Nat) (exit : ProcessExit) (members : Option (List Int)) : ControllerState :=
  let owns := (s.listeners.filter (·.1 == child)).map (·.2)
  let s := { s with
    spawned := s.spawned.modify child fun supervisor => { supervisor with closed := some exit }
    listeners := s.listeners.filter (·.1 != child) }
  owns.foldl (fun s own => if s.completed then s else s.onClose ownPid own exit members) s

def failSpawn (s : ControllerState) (child : Nat) (message : String) : ControllerState :=
  { s with spawned := s.spawned.modify child fun supervisor => { supervisor with spawnErrorMessage := some message } }

end Turns

end ControllerState

/-! ## Events -/

inductive ControllerEvent where
  | message (rawMessage : JsValue) (processIdentity : Option String) (groupId : Option Int) (members : Option (List Int))
  /-- The channel closes under the controller. -/
  | channelCloses
  | disconnect
  /-- SIGINT or SIGTERM. -/
  | signal (members : Option (List Int))
  | resume (index : Nat) (pid : Option Int) (members : Option (List Int))
  | sent (index : Nat) (failed : Bool) (members : Option (List Int))
  /-- The channel takes the oldest message written. -/
  | taken
  | spawnError (child : Nat) (message : String)
  | close (child : Nat) (exit : ProcessExit) (members : Option (List Int))
  | poll (members : Option (List Int))
  /-- Nothing is left that keeps the event loop running. -/
  | drained
  /-- Killed by a signal, or by an exception nobody caught. -/
  | dies (exit : ProcessExit)

/-- How a child with this pid may end: one that was never spawned ends with its errno. -/
def Supervisor.MayEnd (supervisor : Supervisor) : ProcessExit → Prop
  | .code exitCode => match supervisor.pid with
    | some _ => 0 ≤ exitCode ∧ exitCode < 256
    | none => -256 < exitCode ∧ exitCode < 0
  | .killed _ => supervisor.pid ≠ none

inductive ControllerTurn (ownPid : Int) (s : ControllerState) : ControllerEvent → ControllerState → Prop
  | message (rawMessage : JsValue) (processIdentity : Option String) (groupId : Option Int) (members : Option (List Int)) :
      s.connected = true →
      ControllerTurn ownPid s (.message rawMessage processIdentity groupId members)
        (s.onMessage ownPid rawMessage processIdentity groupId members)
  | channelCloses : s.connected = true →
      ControllerTurn ownPid s .channelCloses { s with connected := false, disconnecting := true }
  | disconnect : s.disconnecting = true → ControllerTurn ownPid s .disconnect s.onDisconnect
  | signal (members : Option (List Int)) : ControllerTurn ownPid s (.signal members) (s.beginTermination ownPid members)
  | resume (index : Nat) (suspension : Suspension) (pid : Option Int) (members : Option (List Int)) :
      s.suspended[index]? = some suspension →
      ControllerTurn ownPid s (.resume index pid members)
        ({ s with suspended := s.suspended.eraseIdx index }.resume ownPid suspension pid members)
  | sent (index : Nat) (sending : Sending) (failed : Bool) (members : Option (List Int)) :
      s.sending[index]? = some sending →
      ControllerTurn ownPid s (.sent index failed members)
        ({ s with sending := s.sending.eraseIdx index }.complete ownPid sending failed members)
  | taken (message : ControllerExecutionMessage) (rest : List ControllerExecutionMessage) : s.outbox = message :: rest →
      ControllerTurn ownPid s .taken { s with outbox := rest }
  | spawnError (child : Nat) (supervisor : Supervisor) (message : String) : s.spawned[child]? = some supervisor →
      supervisor.pid = none → ControllerTurn ownPid s (.spawnError child message) (s.failSpawn child message)
  | close (child : Nat) (supervisor : Supervisor) (exit : ProcessExit) (members : Option (List Int)) :
      s.spawned[child]? = some supervisor → supervisor.closed = none → supervisor.MayEnd exit →
      ControllerTurn ownPid s (.close child exit members) (s.closeChild ownPid child exit members)
  | poll (members : Option (List Int)) : s.terminationStarted = true →
      ControllerTurn ownPid s (.poll members) (s.finishWhenQuiescent ownPid members)
  | drained : s.connected = false → s.disconnecting = false → s.suspended = [] → s.sending = [] →
      (∀ supervisor ∈ s.spawned, supervisor.closed ≠ none) →
      ControllerTurn ownPid s .drained { s with exit := some (.code 0) }
  | dies (exit : ProcessExit) : exit ≠ .code 0 → ControllerTurn ownPid s (.dies exit) { s with exit := some exit }

/-- The controller under every sequence of events, until it exits. -/
def controllerMachine (ownPid : Int) : Machine ControllerState ControllerEvent where
  init s := s = .initial
  step s e t := s.exit = none ∧ ControllerTurn ownPid s e t

/-! ## What a turn does to the start of the supervisor -/

/-- Neither the token, nor the supervisor, nor a waiting handler has changed. -/
structure Frame (s t : ControllerState) : Prop where
  token : t.executionToken = s.executionToken
  supervisor : t.supervisor = s.supervisor
  spawned : t.spawned.length = s.spawned.length
  suspended : t.suspended = s.suspended

theorem Frame.refl (s : ControllerState) : Frame s s := ⟨rfl, rfl, rfl, rfl⟩

theorem Frame.trans {s t u : ControllerState} (h₁ : Frame s t) (h₂ : Frame t u) : Frame s u :=
  ⟨h₂.token.trans h₁.token, h₂.supervisor.trans h₁.supervisor, h₂.spawned.trans h₁.spawned,
    h₂.suspended.trans h₁.suspended⟩

section Frames

variable (ownPid : Int) (s : ControllerState)

theorem frame_exitController (exitCode : Int) : Frame s (s.exitController exitCode) := by
  unfold ControllerState.exitController
  split
  · exact Frame.refl s
  · exact ⟨rfl, rfl, rfl, rfl⟩

theorem frame_finishWhenQuiescent (members : Option (List Int)) : Frame s (s.finishWhenQuiescent ownPid members) := by
  unfold ControllerState.finishWhenQuiescent
  split
  · exact Frame.refl s
  · dsimp only
    have hexit : ∀ exitCode, Frame s (ControllerState.exitController { s with observed := s.observed ++ [members] } exitCode) := by
      intro exitCode
      have h := frame_exitController { s with observed := s.observed ++ [members] } exitCode
      exact ⟨h.token, h.supervisor, h.spawned, h.suspended⟩
    split
    · exact ⟨rfl, rfl, rfl, rfl⟩
    · split
      · exact ⟨rfl, rfl, rfl, rfl⟩
      · split
        · split
          · exact ⟨rfl, rfl, rfl, rfl⟩
          · exact hexit _
        · exact hexit _

theorem frame_beginTermination (members : Option (List Int)) : Frame s (s.beginTermination ownPid members) := by
  unfold ControllerState.beginTermination
  split
  · exact Frame.refl s
  · have h := frame_finishWhenQuiescent ownPid { s with terminationStarted := true } members
    exact ⟨h.token, h.supervisor, h.spawned, h.suspended⟩

theorem frame_complete (sending : Sending) (failed : Bool) (members : Option (List Int)) :
    Frame s (s.complete ownPid sending failed members) := by
  cases sending with
  | ready =>
    show Frame s (if failed then s.exitController 2 else s)
    split
    · exact frame_exitController s 2
    · exact Frame.refl s
  | started =>
    show Frame s (if failed then s.beginTermination ownPid members else s)
    split
    · exact frame_beginTermination ownPid s members
    · exact Frame.refl s
  | result exitCode => exact frame_exitController s exitCode

theorem frame_sendMessage (message : ControllerExecutionMessage) (onComplete : Sending) (members : Option (List Int)) :
    Frame s (s.sendMessage ownPid message onComplete members) := by
  unfold ControllerState.sendMessage
  split
  · exact ⟨rfl, rfl, rfl, rfl⟩
  · exact frame_complete ownPid s onComplete true members

theorem frame_listen (child : Nat) : Frame s (s.listen child) := by
  unfold ControllerState.listen
  split
  · exact ⟨rfl, rfl, rfl, rfl⟩
  · exact Frame.refl s

theorem frame_onClose (own : Nat) (exit : ProcessExit) (members : Option (List Int)) :
    Frame s (s.onClose ownPid own exit members) := by
  unfold ControllerState.onClose
  dsimp only
  refine Frame.trans ?_ (frame_beginTermination ownPid _ members)
  exact ⟨rfl, rfl, rfl, rfl⟩

theorem frame_closeChild (child : Nat) (exit : ProcessExit) (members : Option (List Int)) :
    Frame s (s.closeChild ownPid child exit members) := by
  have hfold : ∀ (owns : List Nat) (s : ControllerState),
      Frame s (owns.foldl (fun s own => if s.completed then s else s.onClose ownPid own exit members) s) := by
    intro owns
    induction owns with
    | nil => exact Frame.refl
    | cons own owns ih =>
      intro s
      refine Frame.trans ?_ (ih _)
      dsimp only
      split
      · exact Frame.refl s
      · exact frame_onClose ownPid s own exit members
  unfold ControllerState.closeChild
  dsimp only
  refine Frame.trans ?_ (hfold _ _)
  exact ⟨rfl, rfl, List.length_modify .., rfl⟩

end Frames

def ControllerEvent.launcherMessage : ControllerEvent → Option LauncherExecutionMessage
  | .message rawMessage _ _ _ => parseLauncherExecutionMessage rawMessage
  | _ => none

/-- START handlers at their barrier. -/
def ControllerState.starting (s : ControllerState) : Nat := s.suspended.count .start

inductive TurnEffect (s : ControllerState) (e : ControllerEvent) (t : ControllerState) : Prop
  | quiet : t.executionToken = s.executionToken → t.supervisor = s.supervisor → t.spawned.length = s.spawned.length →
      t.starting ≤ s.starting →
      (∀ token, e.launcherMessage = some (.prepare token) → s.executionToken ≠ none ∨ s.supervisor ≠ none) → TurnEffect s e t
  | prepared (token : String) : e.launcherMessage = some (.prepare token) → s.executionToken = none →
      t.executionToken = some token → t.supervisor = s.supervisor → t.spawned.length = s.spawned.length →
      t.starting ≤ s.starting → TurnEffect s e t
  | started (token : String) : e.launcherMessage = some (.start token) → s.executionToken = some token →
      s.supervisor = none → t.executionToken = s.executionToken → t.supervisor = s.supervisor →
      t.spawned.length = s.spawned.length → t.starting = s.starting + 1 → TurnEffect s e t
  | spawns : e.launcherMessage = none → 0 < s.starting → s.connected = true → s.terminationStarted = false →
      t.executionToken = s.executionToken → t.supervisor ≠ none → t.spawned.length = s.spawned.length + 1 →
      t.starting + 1 = s.starting → TurnEffect s e t

theorem Frame.starting {s t : ControllerState} (h : Frame s t) : t.starting = s.starting := by
  rw [ControllerState.starting, h.suspended]
  rfl

theorem Frame.quiet {s t : ControllerState} {e : ControllerEvent} (h : Frame s t)
    (hprepare : ∀ token, e.launcherMessage = some (.prepare token) → s.executionToken ≠ none ∨ s.supervisor ≠ none) :
    TurnEffect s e t :=
  .quiet h.token h.supervisor h.spawned (Nat.le_of_eq h.starting) hprepare

theorem onMessage_effect {ownPid : Int} {s : ControllerState} {rawMessage : JsValue} {processIdentity : Option String}
    {groupId : Option Int} {members : Option (List Int)} :
    TurnEffect s (.message rawMessage processIdentity groupId members)
      (s.onMessage ownPid rawMessage processIdentity groupId members) := by
  have hparsed : (ControllerEvent.message rawMessage processIdentity groupId members).launcherMessage =
      parseLauncherExecutionMessage rawMessage := rfl
  unfold ControllerState.onMessage
  cases hmessage : parseLauncherExecutionMessage rawMessage with
  | none =>
    have hquiet : ∀ {t : ControllerState}, Frame s t →
        TurnEffect s (.message rawMessage processIdentity groupId members) t := by
      intro t h
      refine h.quiet fun token htoken => ?_
      rw [hparsed, hmessage] at htoken
      cases htoken
    dsimp only
    split
    · exact hquiet (frame_exitController s 2)
    · exact hquiet (frame_beginTermination ownPid s members)
  | some message =>
    cases message with
    | prepare token =>
      dsimp only
      split
      · rename_i h
        exact (frame_exitController s 2).quiet fun _ _ => h
      · rename_i h
        have htoken : s.executionToken = none := by
          by_cases htoken : s.executionToken = none
          · exact htoken
          · exact absurd (.inl htoken) h
        have hprepared : ∀ {t : ControllerState}, Frame { s with executionToken := some token } t →
            TurnEffect s (.message rawMessage processIdentity groupId members) t := by
          intro t h
          exact .prepared token (hparsed.trans hmessage) htoken h.token h.supervisor h.spawned (Nat.le_of_eq h.starting)
        split
        · exact hprepared (frame_exitController _ 2)
        · split
          · exact hprepared (frame_exitController _ 2)
          · refine .prepared token (hparsed.trans hmessage) htoken rfl rfl rfl (Nat.le_of_eq ?_)
            simp [ControllerState.starting]
    | start token =>
      dsimp only
      split
      · refine (frame_exitController s 2).quiet fun token htoken => ?_
        rw [hparsed, hmessage] at htoken
        cases htoken
      · rename_i h
        simp only [not_or, ne_eq, Classical.not_not] at h
        obtain ⟨-, htoken, hsupervisor, -⟩ := h
        refine .started token (hparsed.trans hmessage) htoken hsupervisor rfl rfl rfl ?_
        simp [ControllerState.starting]

theorem count_eraseIdx {suspended : List Suspension} {index : Nat} {suspension : Suspension}
    (h : suspended[index]? = some suspension) :
    (suspended.eraseIdx index).count .start + (if suspension = .start then 1 else 0) = suspended.count .start := by
  induction suspended generalizing index with
  | nil => cases h
  | cons x xs ih =>
    cases index with
    | zero =>
      cases Option.some.inj h
      rw [List.eraseIdx_cons_zero, List.count_cons]
      simp
    | succ index =>
      have := ih h
      rw [List.eraseIdx_cons_succ, List.count_cons, List.count_cons]
      omega

theorem resume_effect {ownPid : Int} {s : ControllerState} {index : Nat} {suspension : Suspension} {pid : Option Int}
    {members : Option (List Int)} (h : s.suspended[index]? = some suspension) :
    TurnEffect s (.resume index pid members)
      ({ s with suspended := s.suspended.eraseIdx index }.resume ownPid suspension pid members) := by
  have hcount := count_eraseIdx h
  have hnone : ∀ token, (ControllerEvent.resume index pid members).launcherMessage = some (.prepare token) →
      s.executionToken ≠ none ∨ s.supervisor ≠ none := fun _ h => by cases h
  have hquiet : ∀ {t : ControllerState}, Frame { s with suspended := s.suspended.eraseIdx index } t →
      TurnEffect s (.resume index pid members) t := by
    intro t ht
    refine .quiet ht.token ht.supervisor ht.spawned ?_ hnone
    have hle : (s.suspended.eraseIdx index).count .start ≤ s.starting := by
      rw [ControllerState.starting]
      omega
    exact Nat.le_trans (Nat.le_of_eq ht.starting) hle
  cases suspension with
  | ready token processIdentity groupId =>
    simp only [ControllerState.resume]
    split
    · exact hquiet (Frame.refl _)
    · exact hquiet (frame_sendMessage ownPid _ _ _ members)
  | start =>
    simp only [ControllerState.resume]
    split
    · exact hquiet (Frame.refl _)
    · rename_i hclear
      simp only [not_or, Bool.not_eq_false, Bool.not_eq_true] at hclear
      obtain ⟨hconnected, -, htermination⟩ := hclear
      rw [if_pos rfl] at hcount
      unfold ControllerState.spawnSupervisor
      cases pid with
      | some supervisorPid =>
        refine .spawns rfl (by rw [ControllerState.starting]; omega) hconnected htermination rfl (by simp) (by simp) ?_
        simp only [ControllerState.starting, List.count_append]
        have hother : List.count Suspension.start [.started s.spawned.length supervisorPid] = 0 := by
          simp
        omega
      | none =>
        refine .spawns rfl (by rw [ControllerState.starting]; omega) hconnected htermination rfl ?_ ?_ ?_
        · simp [ControllerState.listen]
        · simp [ControllerState.listen]
        · simp only [ControllerState.starting, ControllerState.listen]
          exact hcount
  | started child supervisorPid =>
    simp only [ControllerState.resume]
    exact hquiet (Frame.trans (frame_sendMessage ownPid _ _ _ members) (frame_listen _ child))
  | disconnect => exact hquiet (frame_beginTermination ownPid _ members)

theorem Frame.silent {s t : ControllerState} {e : ControllerEvent} (h : Frame s t) (he : e.launcherMessage = none) :
    TurnEffect s e t :=
  h.quiet fun token htoken => by rw [he] at htoken; cases htoken

/-- Every turn is one of the four. -/
theorem turn_effect {ownPid : Int} {s t : ControllerState} {e : ControllerEvent} (h : ControllerTurn ownPid s e t) :
    TurnEffect s e t := by
  cases h with
  | message rawMessage processIdentity groupId members _ => exact onMessage_effect
  | channelCloses _ => exact Frame.silent ⟨rfl, rfl, rfl, rfl⟩ rfl
  | disconnect _ =>
    unfold ControllerState.onDisconnect
    dsimp only
    split
    · have h := frame_exitController { s with disconnecting := false } 0
      exact Frame.silent ⟨h.token, h.supervisor, h.spawned, h.suspended⟩ rfl
    · refine .quiet rfl rfl rfl (Nat.le_of_eq ?_) ?_
      · simp [ControllerState.starting]
      · intro token h
        cases h
  | signal members => exact (frame_beginTermination ownPid s members).silent rfl
  | resume index suspension pid members h => exact resume_effect h
  | sent index sending failed members _ =>
    have h := frame_complete ownPid { s with sending := s.sending.eraseIdx index } sending failed members
    exact Frame.silent ⟨h.token, h.supervisor, h.spawned, h.suspended⟩ rfl
  | taken message rest _ => exact Frame.silent ⟨rfl, rfl, rfl, rfl⟩ rfl
  | spawnError child supervisor message _ _ =>
    refine Frame.silent ⟨rfl, rfl, ?_, rfl⟩ rfl
    exact List.length_modify ..
  | close child supervisor exit members _ _ _ => exact (frame_closeChild ownPid s child exit members).silent rfl
  | poll members _ => exact (frame_finishWhenQuiescent ownPid s members).silent rfl
  | drained _ _ _ _ _ => exact Frame.silent ⟨rfl, rfl, rfl, rfl⟩ rfl
  | dies exit _ => exact Frame.silent ⟨rfl, rfl, rfl, rfl⟩ rfl

/-! ## One supervisor -/

def ControllerEvent.prepareToken (e : ControllerEvent) : Option String :=
  e.launcherMessage.bind fun
    | .prepare token => some token
    | .start _ => none

/-- The token of the first PREPARE delivered. -/
def firstPrepare (tr : List ControllerEvent) : Option String := tr.findSome? (·.prepareToken)

/-- A START with this token was delivered. -/
def StartDelivered (tr : List ControllerEvent) (token : String) : Prop :=
  ∃ e ∈ tr, e.launcherMessage = some (.start token)

theorem prepareToken_eq_some {e : ControllerEvent} {token : String} (h : e.prepareToken = some token) :
    e.launcherMessage = some (.prepare token) := by
  unfold ControllerEvent.prepareToken at h
  cases hm : e.launcherMessage with
  | none => rw [hm] at h; cases h
  | some message =>
    rw [hm] at h
    cases message with
    | prepare other => cases h; rfl
    | start _ => cases h

theorem firstPrepare_snoc (tr : List ControllerEvent) (e : ControllerEvent) :
    firstPrepare (tr ++ [e]) = (firstPrepare tr).or e.prepareToken := by
  unfold firstPrepare
  rw [List.findSome?_append]
  simp

theorem StartDelivered.snoc {tr : List ControllerEvent} {token : String} (h : StartDelivered tr token)
    (e : ControllerEvent) : StartDelivered (tr ++ [e]) token := by
  obtain ⟨d, hd, hstart⟩ := h
  exact ⟨d, List.mem_append_left _ hd, hstart⟩

/-- The token is that of the first PREPARE, and a START handler that waits was let in by a
    START with it. -/
structure StartInvariant (tr : List ControllerEvent) (s : ControllerState) : Prop where
  token : s.executionToken = firstPrepare tr
  supervised : s.supervisor ≠ none → s.executionToken ≠ none
  starting : 0 < s.starting → ∃ token, s.executionToken = some token ∧ StartDelivered tr token

theorem startInvariant_step {tr : List ControllerEvent} {s t : ControllerState} {e : ControllerEvent}
    (h : StartInvariant tr s) (heffect : TurnEffect s e t) : StartInvariant (tr ++ [e]) t := by
  cases heffect with
  | quiet htoken hsupervisor _ hstarting hprepare =>
    have hfirst : firstPrepare (tr ++ [e]) = firstPrepare tr := by
      rw [firstPrepare_snoc]
      cases hp : e.prepareToken with
      | none => exact Option.or_none
      | some token =>
        have hsome : s.executionToken ≠ none := by
          rcases hprepare token (prepareToken_eq_some hp) with h' | h'
          · exact h'
          · exact h.supervised h'
        rw [h.token] at hsome
        obtain ⟨first, hfirst⟩ := Option.ne_none_iff_exists'.mp hsome
        rw [hfirst]
        rfl
    refine ⟨by rw [hfirst, htoken, h.token], fun hs => ?_, fun hpos => ?_⟩
    · rw [htoken]
      exact h.supervised (hsupervisor ▸ hs)
    · obtain ⟨token, htok, hstart⟩ := h.starting (by omega)
      exact ⟨token, htoken.trans htok, hstart.snoc e⟩
  | prepared token hmessage hnone htoken hsupervisor _ hstarting =>
    refine ⟨?_, fun _ => by rw [htoken]; simp, fun hpos => ?_⟩
    · have hp : e.prepareToken = some token := by
        unfold ControllerEvent.prepareToken
        rw [hmessage]
        rfl
      rw [firstPrepare_snoc, ← h.token, hnone, htoken, hp]
      rfl
    · obtain ⟨other, htok, _⟩ := h.starting (by omega)
      rw [hnone] at htok
      cases htok
  | started token hmessage htok hnone htoken hsupervisor _ _ =>
    have hp : e.prepareToken = none := by
      unfold ControllerEvent.prepareToken
      rw [hmessage]
      rfl
    refine ⟨?_, fun hs => ?_, fun _ => ⟨token, htoken.trans htok, e, by simp, hmessage⟩⟩
    · rw [firstPrepare_snoc, hp, Option.or_none, htoken, h.token]
    · exact absurd (hsupervisor.trans hnone) hs
  | spawns hmessage hpos _ _ htoken _ _ hstarting =>
    have hp : e.prepareToken = none := by
      unfold ControllerEvent.prepareToken
      rw [hmessage]
      rfl
    obtain ⟨token, htok, hstart⟩ := h.starting hpos
    refine ⟨?_, fun _ => ?_, fun _ => ⟨token, htoken.trans htok, hstart.snoc e⟩⟩
    · rw [firstPrepare_snoc, hp, Option.or_none, htoken, h.token]
    · rw [htoken, htok]
      simp

theorem startInvariant_run {ownPid : Int} {tr : List ControllerEvent} {s : ControllerState}
    (h : Run (controllerMachine ownPid) tr s) : StartInvariant tr s := by
  refine h.traceInvariant (P := StartInvariant) ?_ ?_
  · intro s hs
    cases hs
    refine ⟨rfl, fun h => absurd rfl h, fun h => ?_⟩
    exact absurd h (Nat.lt_irrefl 0)
  · intro tr s e t _ hinv hstep
    exact startInvariant_step hinv (turn_effect hstep.2)

/-- No START with the prepared token is delivered while another START handler waits. -/
def OneStart (s : ControllerState) (e : ControllerEvent) : Prop :=
  ∀ token, e.launcherMessage = some (.start token) → s.executionToken = some token → s.starting = 0

/-- A supervisor, or a handler that will spawn one, and not two of them. -/
structure Single (s : ControllerState) : Prop where
  count : s.spawned.length + s.starting ≤ 1
  held : s.supervisor = none → s.spawned.length = 0

theorem single_step {s t : ControllerState} {e : ControllerEvent} (hone : OneStart s e) (h : Single s)
    (heffect : TurnEffect s e t) : Single t := by
  have hcount := h.count
  cases heffect with
  | quiet _ hsupervisor hspawned hstarting _ | prepared _ _ _ _ hsupervisor hspawned hstarting =>
    refine ⟨by omega, fun hnone => ?_⟩
    rw [hspawned]
    exact h.held (hsupervisor ▸ hnone)
  | started token hmessage htok hnone _ hsupervisor hspawned hstarting =>
    have hzero := hone token hmessage htok
    have hempty := h.held hnone
    exact ⟨by omega, fun _ => by omega⟩
  | spawns _ hpos _ _ _ hsupervisor hspawned hstarting => exact ⟨by omega, fun hnone => absurd hnone hsupervisor⟩

/-- A turn that spawns finds a START handler waiting, the channel open and nothing terminating. -/
theorem TurnEffect.of_spawned {s t : ControllerState} {e : ControllerEvent} (h : TurnEffect s e t)
    (hspawned : t.spawned.length ≠ s.spawned.length) :
    s.connected = true ∧ s.terminationStarted = false ∧ 0 < s.starting := by
  cases h with
  | quiet _ _ hsame _ _ => exact absurd hsame hspawned
  | prepared _ _ _ _ _ hsame _ => exact absurd hsame hspawned
  | started _ _ _ _ _ _ hsame _ => exact absurd hsame hspawned
  | spawns _ hpos hconnected htermination _ _ _ _ => exact ⟨hconnected, htermination, hpos⟩

/-- A supervisor is spawned only while connected, before any termination, after a START with
    the token of the first PREPARE; and only one is, if no such START comes while another waits. -/
theorem one_supervisor {ownPid : Int} {tr : List ControllerEvent} {s : ControllerState} :
    (Run (controllerMachine ownPid) tr s → ∀ e t, (controllerMachine ownPid).step s e t →
      t.spawned.length ≠ s.spawned.length → s.connected = true ∧ s.terminationStarted = false ∧
        ∃ token, firstPrepare tr = some token ∧ StartDelivered tr token) ∧
    (Run ((controllerMachine ownPid).guarded OneStart) tr s → s.spawned.length ≤ 1) := by
  constructor
  · intro hrun e t hstep hspawned
    have hinv := startInvariant_run hrun
    obtain ⟨hconnected, htermination, hpos⟩ := (turn_effect hstep.2).of_spawned hspawned
    obtain ⟨token, htok, hstart⟩ := hinv.starting hpos
    exact ⟨hconnected, htermination, token, hinv.token ▸ htok, hstart⟩
  · intro hrun
    have hsingle : Single s := by
      refine hrun.invariant ?_ ?_
      · intro s hs
        cases hs
        exact ⟨Nat.zero_le 1, fun _ => rfl⟩
      · intro s e t h hstep
        exact single_step hstep.1 h (turn_effect hstep.2.2)
    have := hsingle.count
    omega

/-! ### Two STARTs -/

def samplePrepare : ControllerEvent :=
  .message (LauncherExecutionMessage.prepare "t").encode (some "id") (some 42) none

def sampleStart : ControllerEvent := .message (LauncherExecutionMessage.start "t").encode none none none

/-- READY still to be sent, one START handler at its barrier. -/
def sampleStarting : ControllerState :=
  { ControllerState.initial with executionToken := some "t", suspended := [.ready "t" "id" 42, .start] }

def sampleSpawned : ControllerState :=
  { ControllerState.initial with
    executionToken := some "t"
    supervisor := some 0
    suspended := [.ready "t" "id" 42, .started 0 43]
    spawned := [⟨some 43, none, none⟩] }

theorem run_sampleStarting {c : ControllerState → ControllerEvent → Prop}
    (hprepare : c ControllerState.initial samplePrepare)
    (hstart : c { ControllerState.initial with executionToken := some "t", suspended := [.ready "t" "id" 42] } sampleStart) :
    Run ((controllerMachine 42).guarded c) [samplePrepare, sampleStart] sampleStarting := by
  have h0 : Run ((controllerMachine 42).guarded c) [] ControllerState.initial := Run.start rfl
  have h1 := h0.snoc ⟨hprepare, ⟨rfl, .message _ (some "id") (some 42) none rfl⟩⟩
  have e1 : ControllerState.initial.onMessage 42 (LauncherExecutionMessage.prepare "t").encode (some "id") (some 42) none =
      { ControllerState.initial with executionToken := some "t", suspended := [.ready "t" "id" 42] } := by
    decide
  rw [e1] at h1
  have h2 := h1.snoc ⟨hstart, ⟨rfl, .message _ none none none rfl⟩⟩
  have e2 : ControllerState.onMessage 42
      { ControllerState.initial with executionToken := some "t", suspended := [.ready "t" "id" 42] }
      (LauncherExecutionMessage.start "t").encode none none none = sampleStarting := by
    decide
  rw [e2] at h2
  exact h2

theorem one_supervisor_sample :
    (∃ tr, Run ((controllerMachine 42).guarded OneStart) tr sampleSpawned) ∧ sampleSpawned.spawned.length ≤ 1 ∧
    (firstPrepare [samplePrepare, sampleStart] = some "t" ∧ StartDelivered [samplePrepare, sampleStart] "t") := by
  have hstarting : Run ((controllerMachine 42).guarded OneStart) [samplePrepare, sampleStart] sampleStarting :=
    run_sampleStarting (fun _ _ h => by cases h) fun _ _ _ => rfl
  have hresume : (controllerMachine 42).step sampleStarting (.resume 1 (some 43) none) sampleSpawned :=
    ⟨rfl, .resume 1 .start (some 43) none rfl⟩
  have hone : OneStart sampleStarting (.resume 1 (some 43) none) := by
    intro token h
    cases h
  have hspawned := hstarting.snoc ⟨hone, hresume⟩
  have hstart := (one_supervisor.1 hstarting.of_guarded _ _ hresume (by decide)).2.2
  obtain ⟨token, hfirst, hdelivered⟩ := hstart
  have htoken : firstPrepare [samplePrepare, sampleStart] = some "t" := by decide
  cases htoken.symm.trans hfirst
  exact ⟨⟨_, hspawned⟩, one_supervisor.2 hspawned, htoken, hdelivered⟩

/-- PREPARE, START and START again before the first handler resumes: both spawn. -/
theorem two_supervisors :
    ∃ tr s, Run (controllerMachine 42) tr s ∧ s.spawned.length = 2 := by
  have hstarting : Run (controllerMachine 42) [samplePrepare, sampleStart] sampleStarting :=
    Run.of_guarded (run_sampleStarting (c := fun _ _ => True) trivial trivial)
  have h3 := hstarting.snoc (M := controllerMachine 42) (a := sampleStart) ⟨rfl, .message _ none none none rfl⟩
  have h4 := h3.snoc (M := controllerMachine 42) (a := .resume 1 (some 43) none)
    ⟨by decide, .resume 1 .start (some 43) none (by decide)⟩
  have h5 := h4.snoc (M := controllerMachine 42) (a := .resume 1 (some 44) none)
    ⟨by decide, .resume 1 .start (some 44) none (by decide)⟩
  exact ⟨_, _, h5, by decide⟩

end GitCommitsPush.Reconciliation
