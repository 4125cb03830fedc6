/-
  GitCommitsPush.Runtime.NodeSupervisor — the two-stage pipeline of one pass
  (`entrypoints/node-supervisor.ts`): the orchestrator writes to the bridge, under the signals the
  supervisor itself is sent.

  Every event of the children, of their streams, of the signal handlers and of the timer is a turn
  of its own. A child has ended once its exit code or its signal is set; `close` follows when its
  outputs are done. An `error` of a child that was not spawned comes with its exit code. What the
  streams carry is not here.
-/

import GitCommitsPush.Runtime.RunProcess

namespace GitCommitsPush.Runtime.Supervisor

open GitCommitsPush.Lib.Runs

inductive SupervisorSignal where
  | sigint
  | sigterm
  deriving DecidableEq, Repr

inductive StageName where
  | producer
  | consumer
  deriving DecidableEq, Repr

structure PipelineStageResult where
  exitCode : Option Int
  signal : Option String
  spawnError : Option Thrown
  deriving DecidableEq, Repr

inductive TerminationReason where
  | exit
  | aborted
  deriving DecidableEq, Repr

structure PipelineResult where
  producer : PipelineStageResult
  consumer : PipelineStageResult
  exitCode : Int
  terminationReason : TerminationReason
  deriving DecidableEq, Repr

/-- A child, with what `observeStage` has seen of it. -/
structure Child where
  exitCode : Option Int
  signalCode : Option String
  spawnError : Option Thrown
  result : Option PipelineStageResult
  deriving DecidableEq, Repr

/-- How `runSignalAwarePipeline` ends: by a signal to its own process, or with a code. -/
inductive Ending where
  | raised (signal : SupervisorSignal)
  | returned (exitCode : Int)
  deriving DecidableEq, Repr

structure Pipeline where
  producer : Child
  consumer : Child
  /-- `producer.stdout.readableEnded`. -/
  readableEnded : Bool
  terminationStarted : Bool
  forceKillTimer : Bool
  ioError : Option Thrown
  /-- The abort listener is set. -/
  listening : Bool
  /-- `controller.signal.aborted`. -/
  aborted : Bool
  receivedSignal : Option SupervisorSignal
  /-- The signals given to the stages, oldest first. -/
  signals : List (StageName × SentSignal)
  result : Option PipelineResult
  ending : Option Ending
  deriving DecidableEq, Repr

def Pipeline.child (p : Pipeline) : StageName → Child
  | .producer => p.producer
  | .consumer => p.consumer

def Pipeline.setChild (p : Pipeline) (stage : StageName) (child : Child) : Pipeline := match stage with
  | .producer => { p with producer := child }
  | .consumer => { p with consumer := child }

def isRunning (child : Child) : Bool := child.exitCode.isNone && child.signalCode.isNone

/-- `signal` to each stage that runs, the producer first. -/
def signalRunning (p : Pipeline) (signal : SentSignal) : Pipeline :=
  { p with signals := p.signals ++
      ([StageName.producer, .consumer].filter fun stage => isRunning (p.child stage)).map fun stage => (stage, signal) }

def terminateChildren (p : Pipeline) : Pipeline :=
  if p.terminationStarted then p
  else { signalRunning { p with terminationStarted := true } .sigterm with forceKillTimer := true }

def recordIoError (error : Thrown) (p : Pipeline) : Pipeline :=
  if error.code = some "EPIPE" then p
  else terminateChildren { p with ioError := some (p.ioError.getD error) }

def resolvePipelineExitCode (producer consumer : PipelineStageResult) (ioError : Option Thrown) : Int :=
  if producer.spawnError.isSome ∨ consumer.spawnError.isSome ∨ ioError.isSome then 1
  else if producer.signal.isSome ∨ consumer.signal.isSome then 1
  else if consumer.exitCode.getD 0 ≠ 0 then consumer.exitCode.getD 0
  else if producer.exitCode.getD 0 ≠ 0 then producer.exitCode.getD 0
  else 0

inductive Event where
  | errored (stage : StageName) (error : Thrown) (exitCode : Option Int)
  | exited (stage : StageName) (exitCode : Option Int) (signal : Option String)
  | closed (stage : StageName)
  /-- The producer's output has been read to its end. -/
  | ended
  | streamFailed (error : Thrown)
  | graceElapsed
  /-- The supervisor is sent a signal. -/
  | received (signal : SupervisorSignal)
  /-- Both stages are observed. -/
  | resumed
  | concluded

/-- One event of a pipeline that has not ended. -/
def advance (p : Pipeline) (event : Event) : Option Pipeline :=
  if p.ending.isSome then none
  else match event with
  | .errored stage error exitCode =>
    let child := p.child stage
    if child.result.isSome then none
    else
      let code := if isRunning child then exitCode else child.exitCode
      some (terminateChildren (p.setChild stage { child with exitCode := code, spawnError := some (child.spawnError.getD error) }))
  | .exited stage exitCode signal =>
    if isRunning (p.child stage) = false ∨ (exitCode = none ∧ signal = none) then none
    else
      let next := p.setChild stage { p.child stage with exitCode := exitCode, signalCode := signal }
      some (if stage = .consumer ∧ isRunning next.producer ∧ next.readableEnded = false then terminateChildren next else next)
  | .closed stage =>
    let child := p.child stage
    if isRunning child ∨ child.result.isSome then none
    else some (p.setChild stage { child with result := some ⟨child.exitCode, child.signalCode, child.spawnError⟩ })
  | .ended => some { p with readableEnded := true }
  | .streamFailed error => if p.result.isSome then none else some (recordIoError error p)
  | .graceElapsed => if p.forceKillTimer then some (signalRunning { p with forceKillTimer := false } .sigkill) else none
  | .received signal =>
    let next := { p with receivedSignal := some (p.receivedSignal.getD signal), aborted := true, listening := false }
    some (if p.listening then terminateChildren next else next)
  | .resumed => match p.producer.result, p.consumer.result, p.result with
    | some producer, some consumer, none => some { p with
        listening := false
        forceKillTimer := false
        result := some ⟨producer, consumer, resolvePipelineExitCode producer consumer p.ioError, if p.aborted then .aborted else .exit⟩ }
    | _, _, _ => none
  | .concluded => p.result.map fun result => { p with ending := some (match p.receivedSignal with
      | some signal => .raised signal
      | none => .returned result.exitCode) }

def spawned : Child := ⟨none, none, none, none⟩

/-- Both stages are spawned and every listener is set. -/
def started : Pipeline where
  producer := spawned
  consumer := spawned
  readableEnded := false
  terminationStarted := false
  forceKillTimer := false
  ioError := none
  listening := true
  aborted := false
  receivedSignal := none
  signals := []
  result := none
  ending := none

/-- `runSignalAwarePipeline`. -/
def supervising : Machine Pipeline Event where
  init p := p = started
  step p event q := advance p event = some q

end GitCommitsPush.Runtime.Supervisor
