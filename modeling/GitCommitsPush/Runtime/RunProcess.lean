/-
  GitCommitsPush.Runtime.RunProcess — `runProcess`, one event at a time.

  A call monitors the two outputs of its child, writes its input, listens to the abort signal and
  to its timers, and settles when the child has completed and the three tasks have. Every event is
  a turn of its own, in any order the runtime gives them: a chunk handler may still be at work when
  the child is gone. A signal that the system refuses to send for another reason than that the
  process is missing is not here.
-/

import GitCommitsPush.Lib.JsText
import GitCommitsPush.Lib.Runs

namespace GitCommitsPush.Runtime

open GitCommitsPush.Lib.JsText (isSafeInteger jsonString)
open GitCommitsPush.Lib.Runs

/-! ## The contract -/

inductive ProcessOutputStream where
  | stdout
  | stderr
  deriving DecidableEq, Repr

inductive ProcessTerminationReason where
  | exit
  | signal
  | timeout
  | aborted
  | outputLimit
  deriving DecidableEq, Repr

inductive ProcessExecutionErrorPhase where
  | spawn
  | stdin
  | output (stream : ProcessOutputStream)
  deriving DecidableEq, Repr

def ProcessExecutionErrorPhase.text : ProcessExecutionErrorPhase → String
  | .spawn => "spawn"
  | .stdin => "stdin"
  | .output .stdout => "stdout"
  | .output .stderr => "stderr"

/-- What was thrown, with the code of a system error. -/
structure Thrown where
  code : Option String
  message : String
  deriving DecidableEq, Repr

structure ProcessExecutionError where
  message : String
  phase : ProcessExecutionErrorPhase
  command : String
  code : Option String
  cause : Thrown
  deriving DecidableEq, Repr

inductive Shell where
  | off
  | on
  | executable (path : String)
  deriving DecidableEq, Repr

structure ProcessRequest where
  command : String
  args : Option (List String)
  shell : Option Shell

structure RunProcessOptions where
  timeoutMs : Option Int
  terminationGraceMs : Option Int
  maxCaptureBytes : Option Int

structure ProcessResult where
  command : String
  args : List String
  stdout : String
  stderr : String
  exitCode : Option Int
  signal : Option String
  terminationReason : ProcessTerminationReason
  limitedStream : Option ProcessOutputStream
  deriving DecidableEq, Repr

def defaultMaxCaptureBytes : Int := 16 * 1024 * 1024

def defaultTerminationGraceMs : Int := 5000

structure Settings where
  maxCaptureBytes : Nat
  terminationGraceMs : Nat
  timeoutMs : Option Nat

def validateNonNegativeInteger (name : String) (value : Int) : Except String Nat :=
  if isSafeInteger value = false ∨ value < 0 then .error (name ++ " must be a non-negative safe integer") else .ok value.toNat

def validatePositiveInteger (name : String) (value : Int) : Except String Nat :=
  if isSafeInteger value = false ∨ value ≤ 0 then .error (name ++ " must be a positive safe integer") else .ok value.toNat

def isShellMode : Option Shell → Bool
  | none | some .off => false
  | _ => true

def validateInvocation (request : ProcessRequest) (options : RunProcessOptions) : Except String Settings := do
  if request.command.toList = [] then throw "Process command must not be empty"
  if isShellMode request.shell = true ∧ request.args ≠ none then
    throw "Shell-mode commands must be provided as one explicit command string"
  if request.shell = some (.executable "") then throw "Shell executable must not be empty"
  let maxCaptureBytes ← validateNonNegativeInteger "maxCaptureBytes" (options.maxCaptureBytes.getD defaultMaxCaptureBytes)
  let terminationGraceMs ← validateNonNegativeInteger "terminationGraceMs" (options.terminationGraceMs.getD defaultTerminationGraceMs)
  match options.timeoutMs with
  | none => return ⟨maxCaptureBytes, terminationGraceMs, none⟩
  | some timeoutMs => return ⟨maxCaptureBytes, terminationGraceMs, some (← validatePositiveInteger "timeoutMs" timeoutMs)⟩

/-! ## A call -/

inductive ProcessCompletion where
  | closed (exitCode : Option Int) (signal : Option String)
  | spawnError (error : Thrown)

inductive SentSignal where
  | sigterm
  | sigkill
  deriving DecidableEq, Repr

/-- `monitorOutput`: what is captured, and the chunk its handler is at work on. -/
structure Monitor where
  captured : List UInt8
  pending : Option (List UInt8)
  settled : Bool

structure Call where
  command : String
  args : List String
  settings : Settings
  /-- `child.pid`; a child that was not spawned has none. -/
  pid : Option Nat
  stdout : Monitor
  stderr : Monitor
  stdinSettled : Bool
  completion : Option ProcessCompletion
  requestedTermination : Option ProcessTerminationReason
  limitedStream : Option ProcessOutputStream
  failure : Option (ProcessExecutionErrorPhase × Thrown)
  terminationStarted : Bool
  forceKillTimer : Bool
  timeoutTimer : Bool
  listening : Bool
  /-- The signals given to the child's group, oldest first. -/
  signals : List SentSignal
  outcome : Option (Except ProcessExecutionError ProcessResult)

def Call.monitor (call : Call) : ProcessOutputStream → Monitor
  | .stdout => call.stdout
  | .stderr => call.stderr

def Call.setMonitor (call : Call) (stream : ProcessOutputStream) (monitor : Monitor) : Call := match stream with
  | .stdout => { call with stdout := monitor }
  | .stderr => { call with stderr := monitor }

def Call.processFinished (call : Call) : Bool := call.completion.isSome

def signalProcessTree (call : Call) (signal : SentSignal) : Call :=
  if call.pid.isSome then { call with signals := call.signals ++ [signal] } else call

def beginTermination (call : Call) : Call :=
  if call.terminationStarted || call.processFinished then call
  else signalProcessTree { call with terminationStarted := true, forceKillTimer := true } .sigterm

def requestTermination (reason : ProcessTerminationReason) (stream : Option ProcessOutputStream) (call : Call) : Call :=
  if call.requestedTermination.isSome then call
  else if call.processFinished ∧ reason ≠ .outputLimit then call
  else beginTermination { call with requestedTermination := some reason, limitedStream := stream }

def recordIoFailure (phase : ProcessExecutionErrorPhase) (error : Thrown) (call : Call) : Call :=
  if call.failure.isSome then call else beginTermination { call with failure := some (phase, error) }

def isExpectedInputClosure (error : Thrown) (processFinished terminationStarted : Bool) : Bool :=
  if !processFinished && !terminationStarted then false
  else error.code == some "EPIPE" || error.code == some "ERR_STREAM_PREMATURE_CLOSE"

def createExecutionError (phase : ProcessExecutionErrorPhase) (command : String) (cause : Thrown) : ProcessExecutionError :=
  ⟨"Process " ++ phase.text ++ " failed for " ++ jsonString command ++ (match cause.code with
    | none => ""
    | some code => " (" ++ code ++ ")"), phase, command, cause.code, cause⟩

inductive Event where
  /-- The stream yields a chunk, and its handler is called. -/
  | chunk (stream : ProcessOutputStream) (bytes : List UInt8)
  | handled (stream : ProcessOutputStream) (thrown : Option Thrown)
  | ended (stream : ProcessOutputStream) (thrown : Option Thrown)
  | inputSettled (thrown : Option Thrown)
  | aborted
  | timedOut
  | graceElapsed
  | errored (error : Thrown)
  | closed (exitCode : Option Int) (signal : Option String)
  | resumed

/-- A chunk whose handler has returned. -/
def captureChunk (call : Call) (stream : ProcessOutputStream) (chunk : List UInt8) : Call :=
  let captured := (call.monitor stream).captured
  let remainingBytes := call.settings.maxCaptureBytes - captured.length
  if chunk.length ≤ remainingBytes then call.setMonitor stream ⟨captured ++ chunk, none, false⟩
  else requestTermination .outputLimit (some stream) (call.setMonitor stream ⟨captured ++ chunk.take remainingBytes, none, false⟩)

-- The text of the bytes: `toString("utf8")`.
variable (decode : List UInt8 → String)

/-- What the call settles with. -/
def settle (call : Call) (completion : ProcessCompletion) : Except ProcessExecutionError ProcessResult := match completion, call.failure with
  | .spawnError error, _ => .error (createExecutionError .spawn call.command error)
  | .closed _ _, some (phase, error) => .error (createExecutionError phase call.command error)
  | .closed exitCode signal, none =>
    .ok ⟨call.command, call.args, decode call.stdout.captured, decode call.stderr.captured, exitCode, signal,
      call.requestedTermination.getD (if exitCode = none then .signal else .exit), call.limitedStream⟩

def Call.complete (call : Call) (completion : ProcessCompletion) : Call :=
  if call.completion.isSome then call else { call with completion := some completion }

/-- One event of a call that has not settled. -/
def advance (call : Call) (event : Event) : Option Call :=
  if call.outcome.isSome then none
  else match event with
  | .chunk stream bytes =>
    let monitor := call.monitor stream
    if monitor.settled ∨ monitor.pending.isSome then none else some (call.setMonitor stream { monitor with pending := some bytes })
  | .handled stream thrown => match (call.monitor stream).pending, thrown with
    | none, _ => none
    | some chunk, none => some (captureChunk call stream chunk)
    | some _, some error =>
      some (recordIoFailure (.output stream) error (call.setMonitor stream { call.monitor stream with pending := none, settled := true }))
  | .ended stream thrown =>
    if (call.monitor stream).settled ∨ (call.monitor stream).pending.isSome then none
    else
      let call := call.setMonitor stream { call.monitor stream with settled := true }
      match thrown with
      | none => some call
      | some error => some (recordIoFailure (.output stream) error call)
  | .inputSettled thrown =>
    if call.stdinSettled then none
    else match thrown with
      | none => some { call with stdinSettled := true }
      | some error =>
        if isExpectedInputClosure error call.processFinished call.terminationStarted then some { call with stdinSettled := true }
        else some (recordIoFailure .stdin error { call with stdinSettled := true })
  | .aborted => if call.listening then some (requestTermination .aborted none { call with listening := false }) else none
  | .timedOut => if call.timeoutTimer then some (requestTermination .timeout none { call with timeoutTimer := false }) else none
  | .graceElapsed =>
    if call.forceKillTimer then
      let call := { call with forceKillTimer := false }
      some (if call.processFinished then call else signalProcessTree call .sigkill)
    else none
  | .errored error => some (call.complete (.spawnError error))
  | .closed exitCode signal => some (call.complete (.closed exitCode signal))
  | .resumed => match call.completion with
    | none => none
    | some completion =>
      if call.stdinSettled && call.stdout.settled && call.stderr.settled then
        some { call with outcome := some (settle decode call completion), forceKillTimer := false, timeoutTimer := false, listening := false }
      else none

def resultArgs (request : ProcessRequest) : List String := if isShellMode request.shell then [] else request.args.getD []

/-- The call once its child is spawned and its listeners are set. `abortedMeanwhile` is the look
    at the signal that follows `addEventListener`. -/
def launch (request : ProcessRequest) (settings : Settings) (pid : Option Nat) (hasSignal abortedMeanwhile : Bool) : Call :=
  let call : Call := {
    command := request.command
    args := resultArgs request
    settings := settings
    pid := pid
    stdout := ⟨[], none, false⟩
    stderr := ⟨[], none, false⟩
    stdinSettled := false
    completion := none
    requestedTermination := none
    limitedStream := none
    failure := none
    terminationStarted := false
    forceKillTimer := false
    timeoutTimer := settings.timeoutMs.isSome
    listening := hasSignal
    signals := []
    outcome := none }
  if hasSignal && abortedMeanwhile then requestTermination .aborted none call else call

/-- `runProcess` up to its first wait: what it throws, the result of a call that is aborted before
    it starts, or the call. -/
def runProcess (request : ProcessRequest) (options : RunProcessOptions) (aborted : Option Bool) (pid : Option Nat) (abortedMeanwhile : Bool) :
    Except String (ProcessResult ⊕ Call) := do
  let settings ← validateInvocation request options
  if aborted = some true then
    return .inl ⟨request.command, resultArgs request, "", "", none, none, .aborted, none⟩
  else return .inr (launch request settings pid aborted.isSome abortedMeanwhile)

/-- The calls that have started, and their events. -/
def running : Machine Call Event where
  init call := ∃ request options aborted pid abortedMeanwhile, runProcess request options aborted pid abortedMeanwhile = .ok (.inr call)
  step call event call' := advance decode call event = some call'

end GitCommitsPush.Runtime
