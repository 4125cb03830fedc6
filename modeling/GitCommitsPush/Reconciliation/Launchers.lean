/-
  GitCommitsPush.Reconciliation.Launchers — any number of launchers and the execution
  controllers they spawn, against the one coordinator table.

  A launcher is `registerReconciliationRequest` followed by `runOwnedReconciliation`
  (`owned-reconciliation-loop.ts`) and the release of its public launcher; `Pc` names
  the point it is suspended at, one for each statement that another process can run
  before. Coordinator calls are the operations of `Reconciliation.Reconciler` on the
  table as it is then. Every launcher can be cancelled, killed, or die of an uncaught
  exception (which releases first) between any two of its steps.

  A launcher is keyed by its owner token and a controller by its execution token, so a
  token is never reused. Processes are named by pid and birth identity:
  - `probe` and `identify` are the liveness reads, each at its own moment. They may be
    wrong about a pid no process of the system holds (an unrelated process may), never
    about one that is held: a held pid is not reported dead, and its identity is read
    as what it is or not at all.
  - `GroupGone` is what `terminateExecutionBoundary`, and the final group check of
    `start`, return on: no live group has that id and leader identity.

  A controller group is alive from its spawn until it is gone, its leader perhaps dying
  first; it accepts START only after its launcher sent it.
-/

import Mathlib.Logic.Function.Basic
import GitCommitsPush.Lib.Runs
import GitCommitsPush.Reconciliation.Reconciler

namespace GitCommitsPush.Reconciliation

open GitCommitsPush.Lib.JsText
open GitCommitsPush.Lib.Runs

/-! ## Launchers -/

structure SupervisorPassResult where
  exitCode : Option Int
  signal : Option String
  spawnErrorMessage : Option String
  supervisorPid : Option Int
  deriving DecidableEq, Repr

def passSucceeded (pass : SupervisorPassResult) : Bool :=
  pass.spawnErrorMessage == none && pass.signal == none && pass.exitCode == some 0

/-- What a pass cancelled before START returns. -/
def cancelledPass : SupervisorPassResult := ⟨none, some "SIGTERM", none, none⟩

/-- The verified identity of a prepared controller. -/
structure PreparedSupervisorPass where
  executionToken : String
  pid : Int
  processIdentity : String
  groupId : Int
  deriving DecidableEq, Repr

/-- What `runOnePass` does once it has cleared its execution. -/
inductive AfterClear where
  | returns (pass : SupervisorPassResult)
  | cancelled
  | rethrows
  deriving DecidableEq, Repr

inductive Pc where
  /-- The top of the admission loop. -/
  | admission (attempt : Nat)
  | observing (attempt : Nat) (observed : ReconcilerStateRecord)
  | identifying (attempt : Nat) (observed : ReconcilerStateRecord) (pidAlive : Bool)
  /-- The liveness answers are in; the transaction has not begun. -/
  | deciding (attempt : Nat) (observed : ReconcilerStateRecord) (pidAlive : Bool) (identity : Option String)
  | recovering (generation : Int)
  | terminatingPrior (generation : Int) (execution : ActiveExecutionRecord)
  | clearingPrior (generation : Int) (execution : ActiveExecutionRecord)
  | preparing (generation : Int)
  /-- The top of the pass loop. -/
  | passStarting (generation : Int)
  | spawning (generation : Int)
  | handshaking (generation : Int) (executionToken : String)
  | registering (generation : Int) (prepared : PreparedSupervisorPass)
  | registered (generation : Int) (prepared : PreparedSupervisorPass)
  | aborting (generation : Int) (prepared : PreparedSupervisorPass) (registered : Bool)
  | starting (generation : Int) (prepared : PreparedSupervisorPass)
  | awaiting (generation : Int) (prepared : PreparedSupervisorPass)
  | clearing (generation : Int) (prepared : PreparedSupervisorPass) (after : AfterClear)
  /-- The catch block of `runOnePass`. -/
  | cleaning (generation : Int) (prepared : PreparedSupervisorPass) (registered : Bool)
  | passReturned (generation : Int) (pass : SupervisorPassResult)
  /-- The loop returned or threw: the public launcher releases. -/
  | ending
  | ended
  deriving DecidableEq, Repr

/-- The registration has answered. -/
def Pc.pastAdmission : Pc → Bool
  | .admission _ | .observing .. | .identifying .. | .deciding .. => false
  | _ => true

/-- The generation of the pass, or of the preparation, in hand. -/
def Pc.generation : Pc → Option Int
  | .recovering g | .terminatingPrior g _ | .clearingPrior g _ | .preparing g | .passStarting g | .spawning g
  | .handshaking g _ | .registering g _ | .registered g _ | .aborting g _ _ | .starting g _ | .awaiting g _
  | .clearing g _ _ | .cleaning g _ _ | .passReturned g _ => some g
  | _ => none

/-- The generation of a pass that has started. -/
def Pc.passGeneration : Pc → Option Int
  | .spawning g | .handshaking g _ | .registering g _ | .registered g _ | .aborting g _ _ | .starting g _
  | .awaiting g _ | .clearing g _ _ | .cleaning g _ _ | .passReturned g _ => some g
  | _ => none

/-- Between an OWNER answer and the release. -/
def Pc.owning (pc : Pc) : Bool := pc.generation.isSome || pc == .ending

structure Launcher where
  options : RegisterReconciliationOptions
  /-- A registration with other options throws before it reads the row. -/
  valid : assertRegistrationOptions options = .ok ()
  pc : Pc
  /-- Ghost: it holds an OWNER result it has not finished or released. -/
  holds : Bool
  aborted : Bool
  alive : Bool

/-! ## Controllers and the system -/

/-- One controller: the leader of the process group `pid`. -/
structure Controller where
  pid : Int
  identity : String
  leaderAlive : Bool
  groupAlive : Bool
  startSent : Bool
  accepted : Bool
  deriving DecidableEq, Repr

structure Sys where
  db : Db
  launchers : String → Option Launcher
  controllers : String → Option Controller

namespace Sys

def put (s : Sys) (l : Launcher) : Sys :=
  { s with launchers := Function.update s.launchers l.options.token (some l) }

def putController (s : Sys) (token : String) (k : Controller) : Sys :=
  { s with controllers := Function.update s.controllers token (some k) }

def LiveProcess (s : Sys) (pid : Int) (identity : String) : Prop :=
  (∃ t l, s.launchers t = some l ∧ l.alive = true ∧ l.options.pid = pid ∧ l.options.processIdentity = identity) ∨
    ∃ t k, s.controllers t = some k ∧ k.leaderAlive = true ∧ k.pid = pid ∧ k.identity = identity

/-- No live group has this id and leader identity. -/
def GroupGone (s : Sys) (groupId : Int) (identity : String) : Prop :=
  ∀ t k, s.controllers t = some k → k.pid = groupId → k.identity = identity → k.groupAlive = false

/-- No launcher so far had this pid and birth identity. -/
def FreshIdentity (s : Sys) (options : RegisterReconciliationOptions) : Prop :=
  ∀ t l, s.launchers t = some l →
    ¬ (l.options.pid = options.pid ∧ l.options.processIdentity = options.processIdentity)

end Sys

/-! ## What a launcher does with an answer -/

namespace Launcher

def goto (l : Launcher) (pc : Pc) : Launcher := { l with pc }

def afterAttempt (l : Launcher) (attempt : Nat) : Except ReconcilerError RegisterReconciliationResult → Launcher
  | .ok (.owner generation ..) => { l with pc := .recovering generation, holds := true }
  | .ok (.coalesced ..) => l.goto .ended
  | .error .ownerChanged => l.goto (if attempt + 1 < admissionAttempts then .admission (attempt + 1) else .ended)
  | .error _ => l.goto .ended

/-- The next point unless the cancellation signal is set. -/
def unlessAborted (l : Launcher) (pc : Pc) : Launcher := l.goto (if l.aborted then .ending else pc)

def afterRecovery (l : Launcher) (generation : Int) : Except ReconcilerError ReconcilerStateRecord → Launcher
  | .error _ => l.goto .ending
  | .ok state => match state.activeExecution with
    | none => l.unlessAborted (.preparing generation)
    | some execution => l.goto (.terminatingPrior generation execution)

def afterClearPrior (l : Launcher) (generation : Int) : Except ReconcilerError Bool → Launcher
  | .ok true => l.unlessAborted (.preparing generation)
  | _ => l.goto .ending

def afterRegister (l : Launcher) (generation : Int) (prepared : PreparedSupervisorPass) :
    Except ReconcilerError ActiveExecutionRecord → Launcher
  | .ok _ => l.goto (.registered generation prepared)
  | .error _ => l.goto (.cleaning generation prepared false)

def afterAuthorize (l : Launcher) (generation : Int) (prepared : PreparedSupervisorPass) :
    Except ReconcilerError Bool → Launcher
  | .ok true => l.goto (.starting generation prepared)
  | _ => l.goto (.cleaning generation prepared true)

def afterClear (l : Launcher) (generation : Int) (prepared : PreparedSupervisorPass) (after : AfterClear) :
    Except ReconcilerError Bool → Launcher
  | .ok true => match after with
    | .returns pass => l.goto (.passReturned generation pass)
    | .cancelled => l.goto (.passReturned generation cancelledPass)
    | .rethrows => l.goto .ending
  | _ => match after with
    | .rethrows => l.goto .ending
    | _ => l.goto (.cleaning generation prepared true)

/-- `next` is where the loop goes with the generation of a CONTINUE. -/
def afterFinish (l : Launcher) (next : Int → Pc) : Except ReconcilerError FinishReconciliationResult → Launcher
  | .ok (.continue generation ..) => l.goto (next generation)
  | .ok _ => { l with pc := .ended, holds := false }
  | .error _ => l.goto .ending

def afterRelease (l : Launcher) : Except ReconcilerError Bool → Launcher
  | .ok true => { l with pc := .ended, holds := false }
  | _ => l.goto .ended

def fence (l : Launcher) (executionToken : String) : FenceActiveExecutionOptions :=
  ⟨l.options.token, l.options.pid, executionToken⟩

def executionOptions (l : Launcher) (generation : Int) (prepared : PreparedSupervisorPass) :
    RegisterActiveExecutionOptions :=
  { ownerToken := l.options.token
    ownerPid := l.options.pid
    generation
    executionToken := prepared.executionToken
    executionPid := prepared.pid
    executionProcessIdentity := prepared.processIdentity
    executionGroupId := prepared.groupId
    executionBoundaryKind := posixExecutionBoundaryKind }

def finishOptions (l : Launcher) (generation : Int) (success : Bool) (nowEpochMs : Int) :
    FinishReconciliationPassOptions :=
  ⟨l.options.token, l.options.pid, generation, success, nowEpochMs⟩

end Launcher

/-! ## Steps -/

inductive Event where
  | registered (launcher : String) (result : RegisterReconciliationResult)
  | passStarted (launcher : String) (generation : Int)
  | finished (launcher : String) (generation : Int) (success : Bool) (result : FinishReconciliationResult)
  | other
  deriving DecidableEq, Repr

def Event.ofRegistration (launcher : String) : Except ReconcilerError RegisterReconciliationResult → Event
  | .ok result => .registered launcher result
  | .error _ => .other

def Event.ofFinish (launcher : String) (generation : Int) (success : Bool) :
    Except ReconcilerError FinishReconciliationResult → Event
  | .ok result => .finished launcher generation success result
  | .error _ => .other

inductive LauncherStep (s : Sys) (l : Launcher) : Event → Sys → Prop
  | read (attempt : Nat) (observed : ReconcilerStateRecord) : l.pc = .admission attempt →
      readReconcilerState s.db = .ok observed → LauncherStep s l .other (s.put (l.goto (.observing attempt observed)))
  | readFails (attempt : Nat) : l.pc = .admission attempt → LauncherStep s l .other (s.put (l.goto .ended))
  /-- `isProcessAlive(ownerPid)`. -/
  | probe (attempt : Nat) (observed : ReconcilerStateRecord) (pidAlive : Bool) : l.pc = .observing attempt observed →
      (pidAlive = false → ∀ pid identity, observed.ownerPid = some pid → ¬ s.LiveProcess pid identity) →
      LauncherStep s l .other (s.put (l.goto (.identifying attempt observed pidAlive)))
  /-- `readProcessStartIdentity(ownerPid)`. -/
  | identify (attempt : Nat) (observed : ReconcilerStateRecord) (pidAlive : Bool) (identity : Option String) :
      l.pc = .identifying attempt observed pidAlive →
      (∀ pid current, observed.ownerPid = some pid → s.LiveProcess pid current →
        identity = none ∨ identity = some current) →
      LauncherStep s l .other (s.put (l.goto (.deciding attempt observed pidAlive identity)))
  | commitAttempt (attempt : Nat) (observed : ReconcilerStateRecord) (pidAlive : Bool) (identity : Option String)
      (res : Except ReconcilerError RegisterReconciliationResult) (db : Db) :
      l.pc = .deciding attempt observed pidAlive identity →
      (∀ row ∈ s.db, row.requestedGeneration < maxSafeInteger) →
      registrationAttempt l.options observed (ownerIsAlive ⟨fun _ => pidAlive, fun _ => identity⟩ observed) s.db =
        (res, db) →
      LauncherStep s l (.ofRegistration l.options.token res) ({ s with db := db }.put (l.afterAttempt attempt res))
  /-- The public launcher fails between its registration and its loop. -/
  | cleanupFails (g : Int) : l.pc = .recovering g → LauncherStep s l .other (s.put (l.goto .ending))
  | recover (g : Int) : l.pc = .recovering g →
      LauncherStep s l .other (s.put (l.afterRecovery g (readReconcilerState s.db)))
  | priorTerminated (g : Int) (e : ActiveExecutionRecord) : l.pc = .terminatingPrior g e →
      s.GroupGone e.groupId e.processIdentity → LauncherStep s l .other (s.put (l.goto (.clearingPrior g e)))
  | priorThrows (g : Int) (e : ActiveExecutionRecord) : l.pc = .terminatingPrior g e →
      LauncherStep s l .other (s.put (l.goto .ending))
  | clearPrior (g : Int) (e : ActiveExecutionRecord) (res : Except ReconcilerError Bool) (db : Db) :
      l.pc = .clearingPrior g e → clearActiveExecution s.db (l.fence e.token) = (res, db) →
      LauncherStep s l .other ({ s with db := db }.put (l.afterClearPrior g res))
  | prepared (g : Int) : l.pc = .preparing g → LauncherStep s l .other (s.put (l.unlessAborted (.passStarting g)))
  | prepareFails (g now : Int) (res : Except ReconcilerError FinishReconciliationResult) (db : Db) :
      l.pc = .preparing g → l.aborted = false → isSafeNonNegativeInteger (some now) = true →
      finishReconciliationPass s.db (l.finishOptions g false now) = (res, db) →
      LauncherStep s l (.ofFinish l.options.token g false res) ({ s with db := db }.put (l.afterFinish .preparing res))
  | passStart (g : Int) : l.pc = .passStarting g →
      LauncherStep s l (.passStarted l.options.token g) (s.put (l.goto (.spawning g)))
  | passThrows (g : Int) : l.pc = .spawning g → LauncherStep s l .other (s.put (l.goto .ending))
  /-- The controller is spawned inert. -/
  | spawn (g : Int) (token : String) (k : Controller) : l.pc = .spawning g → s.controllers token = none →
      k.startSent = false → k.accepted = false →
      LauncherStep s l .other ((s.putController token k).put (l.goto (.handshaking g token)))
  | handshakeFails (g : Int) (token : String) : l.pc = .handshaking g token →
      LauncherStep s l .other (s.put (l.goto .ending))
  | ready (g : Int) (token : String) (k : Controller) : l.pc = .handshaking g token → s.controllers token = some k →
      LauncherStep s l .other (s.put (l.goto (.registering g ⟨token, k.pid, k.identity, k.pid⟩)))
  | abortPrepared (g : Int) (p : PreparedSupervisorPass) : l.pc = .registering g p → l.aborted = true →
      LauncherStep s l .other (s.put (l.goto (.aborting g p false)))
  | register (g : Int) (p : PreparedSupervisorPass) (res : Except ReconcilerError ActiveExecutionRecord) (db : Db) :
      l.pc = .registering g p → l.aborted = false →
      registerActiveExecution s.db (l.executionOptions g p) = (res, db) →
      LauncherStep s l .other ({ s with db := db }.put (l.afterRegister g p res))
  | abortRegistered (g : Int) (p : PreparedSupervisorPass) : l.pc = .registered g p → l.aborted = true →
      LauncherStep s l .other (s.put (l.goto (.aborting g p true)))
  | abortTerminated (g : Int) (p : PreparedSupervisorPass) (registered : Bool) : l.pc = .aborting g p registered →
      s.GroupGone p.groupId p.processIdentity →
      LauncherStep s l .other
        (s.put (l.goto (if registered then .clearing g p .cancelled else .passReturned g cancelledPass)))
  | abortThrows (g : Int) (p : PreparedSupervisorPass) (registered : Bool) : l.pc = .aborting g p registered →
      LauncherStep s l .other (s.put (l.goto (.cleaning g p registered)))
  | authorize (g : Int) (p : PreparedSupervisorPass) (res : Except ReconcilerError Bool) (db : Db) :
      l.pc = .registered g p → l.aborted = false →
      authorizeActiveExecutionStart s.db (l.fence p.executionToken) = (res, db) →
      LauncherStep s l .other ({ s with db := db }.put (l.afterAuthorize g p res))
  | sendStart (g : Int) (p : PreparedSupervisorPass) (k : Controller) : l.pc = .starting g p →
      s.controllers p.executionToken = some k →
      LauncherStep s l .other
        ((s.putController p.executionToken { k with startSent := true }).put (l.goto (.awaiting g p)))
  /-- `sendIpc` rejects: the message may have left all the same. -/
  | sendStartFails (g : Int) (p : PreparedSupervisorPass) (k : Controller) (left : Bool) : l.pc = .starting g p →
      s.controllers p.executionToken = some k →
      LauncherStep s l .other
        ((s.putController p.executionToken { k with startSent := k.startSent || left }).put (l.goto (.cleaning g p true)))
  | awaitReturns (g : Int) (p : PreparedSupervisorPass) (pass : SupervisorPassResult) : l.pc = .awaiting g p →
      s.GroupGone p.groupId p.processIdentity →
      LauncherStep s l .other (s.put (l.goto (.clearing g p (.returns pass))))
  | awaitThrows (g : Int) (p : PreparedSupervisorPass) : l.pc = .awaiting g p →
      LauncherStep s l .other (s.put (l.goto (.cleaning g p true)))
  | clear (g : Int) (p : PreparedSupervisorPass) (after : AfterClear) (res : Except ReconcilerError Bool) (db : Db) :
      l.pc = .clearing g p after → clearActiveExecution s.db (l.fence p.executionToken) = (res, db) →
      LauncherStep s l .other ({ s with db := db }.put (l.afterClear g p after res))
  | cleaned (g : Int) (p : PreparedSupervisorPass) (registered : Bool) : l.pc = .cleaning g p registered →
      s.GroupGone p.groupId p.processIdentity →
      LauncherStep s l .other (s.put (l.goto (if registered then .clearing g p .rethrows else .ending)))
  | cleanThrows (g : Int) (p : PreparedSupervisorPass) (registered : Bool) : l.pc = .cleaning g p registered →
      LauncherStep s l .other (s.put (l.goto .ending))
  | passAborted (g : Int) (pass : SupervisorPassResult) : l.pc = .passReturned g pass → l.aborted = true →
      LauncherStep s l .other (s.put (l.goto .ending))
  | finish (g now : Int) (pass : SupervisorPassResult) (res : Except ReconcilerError FinishReconciliationResult)
      (db : Db) : l.pc = .passReturned g pass → l.aborted = false → isSafeNonNegativeInteger (some now) = true →
      finishReconciliationPass s.db (l.finishOptions g (passSucceeded pass) now) = (res, db) →
      LauncherStep s l (.ofFinish l.options.token g (passSucceeded pass) res)
        ({ s with db := db }.put (l.afterFinish .passStarting res))
  | release (res : Except ReconcilerError Bool) (db : Db) : l.pc = .ending →
      releaseReconciliationOwnership s.db ⟨l.options.token, l.options.pid⟩ = (res, db) →
      LauncherStep s l .other ({ s with db := db }.put (l.afterRelease res))
  /-- The heartbeat timer, on a row it read at any earlier moment. -/
  | heartbeat (observed : Db) (now : Int) : l.holds = true → isSafeNonNegativeInteger (some now) = true →
      LauncherStep s l .other
        { s with db := (heartbeatReconciler observed s.db ⟨l.options.token, l.options.pid, now⟩).2 }
  | cancel : LauncherStep s l .other (s.put { l with aborted := true })
  /-- An uncaught exception: release if no execution is recorded, then exit. -/
  | fatal (res : Except ReconcilerError Bool) (db : Db) : l.holds = true →
      releaseReconciliationOwnership s.db ⟨l.options.token, l.options.pid⟩ = (res, db) →
      LauncherStep s l .other ({ s with db := db }.put { l with alive := false })
  | kill : LauncherStep s l .other (s.put { l with alive := false })

inductive ControllerStep (s : Sys) (token : String) (k : Controller) : Sys → Prop
  | acceptStart : k.startSent = true → k.leaderAlive = true → k.groupAlive = true →
      ControllerStep s token k (s.putController token { k with accepted := true })
  | leaderDies : ControllerStep s token k (s.putController token { k with leaderAlive := false })
  | groupDies : ControllerStep s token k (s.putController token { k with leaderAlive := false, groupAlive := false })

inductive Step : Sys → Event → Sys → Prop
  | enter {s : Sys} (l : Launcher) : s.launchers l.options.token = none → s.FreshIdentity l.options →
      l.pc = .admission 0 → l.holds = false → l.alive = true → Step s .other (s.put l)
  | launcher {s s' : Sys} {e : Event} {t : String} (l : Launcher) : s.launchers t = some l → l.alive = true →
      LauncherStep s l e s' → Step s e s'
  | controller {s s' : Sys} {t : String} (k : Controller) : s.controllers t = some k → ControllerStep s t k s' →
      Step s .other s'

def initialSys : Sys := ⟨initialDb, fun _ => none, fun _ => none⟩

def launcherMachine : Machine Sys Event where
  init s := s = initialSys
  step := Step

end GitCommitsPush.Reconciliation
