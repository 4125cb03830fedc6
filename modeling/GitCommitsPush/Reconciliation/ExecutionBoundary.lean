/-
  GitCommitsPush.Reconciliation.ExecutionBoundary — ending the process group of a recorded
  execution (`execution-boundary-process.ts`, `process-identity.ts`).

  The world is the list of what the call has observed and sent so far, oldest first. An
  `Environment` answers each question by how many entries there are before it, so the
  answers may change between any two questions, in every way.

  `terminate_spec`: whatever the answers,
  - a signal goes to the recorded group only, right after a classification that saw the group,
    the recorded leader alive, and its recorded identity and group id;
  - the signals sent are none, SIGTERM, or SIGTERM and then SIGKILL;
  - the call returns only if one of its observations showed the recorded group absent;
  - and where the clock advances it ends.
-/

import GitCommitsPush.Lib.Log
import GitCommitsPush.Reconciliation.ReconcilerState

namespace GitCommitsPush.Reconciliation.Boundary

open GitCommitsPush.Lib.Effect
open GitCommitsPush.Lib.Log

/-! ## What is observed -/

/-- How `process.kill` ends. -/
inductive KillAnswer where
  | delivered
  | failed (code : String)
  deriving DecidableEq, Repr

inductive Signal where
  | SIGTERM | SIGKILL
  deriving DecidableEq, Repr

/-- A question with its target, and its answer. -/
inductive Observation where
  /-- `process.kill(-groupId, 0)`. -/
  | group (groupId : Int) (answer : KillAnswer)
  /-- `process.kill(pid, 0)`. -/
  | leader (pid : Int) (answer : KillAnswer)
  | identity (pid : Int) (answer : Option String)
  | groupOfLeader (pid : Int) (answer : Option Int)
  /-- `process.kill(-groupId, signal)`. -/
  | sent (groupId : Int) (signal : Signal) (answer : KillAnswer)
  | clock (now : Int)
  deriving DecidableEq, Repr

/-- The answer to a question about a process or a group, asked with this many observations
    before it. -/
structure Environment where
  /-- `platformSupportsExecutionBoundary`. -/
  supported : Bool
  group (groupId : Int) : Nat → KillAnswer
  leader (pid : Int) : Nat → KillAnswer
  identity (pid : Int) : Nat → Option String
  groupOfLeader (pid : Int) : Nat → Option Int
  kill (groupId : Int) (signal : Signal) : Nat → KillAnswer
  now : Nat → Int

inductive BoundaryError where
  /-- `ExecutionBoundaryError`. -/
  | boundary (message : String)
  | type (message : String)
  /-- Thrown by `process.kill`. -/
  | system (code : String)
  /-- The loop has not ended yet; the source throws nothing. -/
  | unfinished
  deriving DecidableEq, Repr

abbrev Probe (α : Type) := Action (List Observation) BoundaryError α

def ask {α : Type} (answer : Nat → α) (observation : α → Observation) : Probe α := fun trace =>
  (.ok (answer trace.length), trace ++ [observation (answer trace.length)])

/-! ## The source -/

def EXECUTION_TERMINATION_GRACE_MS : Int := 5000

def EXECUTION_TERMINATION_CONFIRMATION_MS : Int := 5000

inductive ExecutionBoundaryLiveness where
  | aliveExact | dead | ambiguous
  deriving DecidableEq, Repr

section Source

variable (env : Environment)

/-- EPERM proves that the process exists. -/
def isProcessAlive (pid : Int) : Probe Bool := do
  let answer ← ask (env.leader pid) (.leader pid)
  return answer == .delivered || answer == .failed "EPERM"

def processGroupExists (groupId : Int) : Probe Bool :=
  if isPositiveInteger (some groupId) = false then .throw (.type "process group id must be a positive integer")
  else do
    match ← ask (env.group groupId) (.group groupId) with
    | .delivered => return true
    | .failed code =>
      if code = "ESRCH" then return false
      else if code = "EPERM" then return true
      else .throw (.system code)

/-- Who leads the group, once its leader's pid is known to be alive. -/
def classifyLeader (execution : ActiveExecutionRecord) (groupExists : Bool) : Probe ExecutionBoundaryLiveness := do
  match ← ask (env.identity execution.pid) (.identity execution.pid) with
  | none => return .ambiguous
  | some identity =>
    if identity ≠ execution.processIdentity then return if groupExists then .ambiguous else .dead
    else
      let currentGroupId ← ask (env.groupOfLeader execution.pid) (.groupOfLeader execution.pid)
      if currentGroupId ≠ some execution.groupId then return .ambiguous
      else return if groupExists then .aliveExact else .ambiguous

def classifyExecutionBoundary (execution : ActiveExecutionRecord) : Probe ExecutionBoundaryLiveness :=
  if env.supported = false then return .ambiguous
  else do
    let groupExists ← processGroupExists env execution.groupId
    if (← isProcessAlive env execution.pid) = false then return if groupExists then .ambiguous else .dead
    else classifyLeader env execution groupExists

/-- The loop of `waitForGroupAbsence`; `fuel` bounds its rounds. -/
def pollGroupAbsence (groupId deadline : Int) : Nat → Probe Bool
  | 0 => .throw .unfinished
  | fuel + 1 => do
    if (← processGroupExists env groupId) = false then return true
    else if (← ask env.now .clock) ≥ deadline then return false
    else pollGroupAbsence groupId deadline fuel

def waitForGroupAbsence (groupId timeoutMs : Int) (fuel : Nat) : Probe Bool := do
  let now ← ask env.now .clock
  pollGroupAbsence env groupId (now + timeoutMs) fuel

inductive SignalResult where
  | signalled | alreadyDead
  deriving DecidableEq, Repr

def Signal.name : Signal → String
  | .SIGTERM => "SIGTERM"
  | .SIGKILL => "SIGKILL"

def signalVerifiedGroup (execution : ActiveExecutionRecord) (signal : Signal) : Probe SignalResult := do
  match ← classifyExecutionBoundary env execution with
  | .dead => return .alreadyDead
  | .ambiguous => .throw (.boundary ("Execution " ++ execution.token ++ " lost its exact leader identity before " ++
      signal.name ++ "; refusing to signal an unrelated process group."))
  | .aliveExact =>
    match ← ask (env.kill execution.groupId signal) (.sent execution.groupId signal) with
    | .delivered => return .signalled
    | .failed code => if code ≠ "ESRCH" then .throw (.system code) else return .alreadyDead

/-- The escalation, after SIGTERM has not emptied the group. -/
def escalate (execution : ActiveExecutionRecord) (confirmationMs : Int) (fuel : Nat) : Probe Unit := do
  match ← signalVerifiedGroup env execution .SIGKILL with
  | .alreadyDead => return
  | .signalled =>
    if (← waitForGroupAbsence env execution.groupId confirmationMs fuel) = true then return
    else .throw (.boundary ("Execution process group " ++ toString execution.groupId ++
      " remains alive after hard termination; durable execution state is preserved."))

/-- What follows a classification that was exact. -/
def terminateExact (execution : ActiveExecutionRecord) (graceMs confirmationMs : Int) (fuel : Nat) : Probe Unit := do
  match ← signalVerifiedGroup env execution .SIGTERM with
  | .alreadyDead => return
  | .signalled =>
    if (← waitForGroupAbsence env execution.groupId graceMs fuel) = true then return
    else escalate env execution confirmationMs fuel

def terminateExecutionBoundary (execution : ActiveExecutionRecord) (graceMs confirmationMs : Option Int) (fuel : Nat) :
    Probe Unit := do
  match ← classifyExecutionBoundary env execution with
  | .dead => return
  | .ambiguous => .throw (.boundary ("Execution " ++ execution.token ++
      " has an ambiguous PID or process-group identity; recovery is fail-closed."))
  | .aliveExact =>
    terminateExact env execution (graceMs.getD EXECUTION_TERMINATION_GRACE_MS)
      (confirmationMs.getD EXECUTION_TERMINATION_CONFIRMATION_MS) fuel

end Source

/-! ## What the entries tell -/

def Observation.signal : Observation → Option Signal
  | .sent _ signal _ => some signal
  | _ => none

/-- The signals sent, in order. -/
def signals (entries : List Observation) : List Signal := entries.filterMap (·.signal)

/-- ESRCH from a probe of this group or from a signal to it. -/
def Observation.absent (groupId : Int) : Observation → Bool
  | .group target answer | .sent target _ answer => target == groupId && answer == .failed "ESRCH"
  | _ => false

/-- Some observation showed the group absent. -/
def SawAbsent (groupId : Int) (entries : List Observation) : Prop := ∃ entry ∈ entries, entry.absent groupId = true

def Shows (answer : KillAnswer) : Prop := answer = .delivered ∨ answer = .failed "EPERM"

/-- A classification that saw the group, and its leader alive with the recorded identity and
    group id. -/
def ExactProbes (execution : ActiveExecutionRecord) (entries : List Observation) : Prop :=
  ∃ group leader, Shows group ∧ Shows leader ∧
    entries = [.group execution.groupId group, .leader execution.pid leader,
      .identity execution.pid (some execution.processIdentity), .groupOfLeader execution.pid (some execution.groupId)]

/-- Whom a signal goes to, and what comes before it. -/
def Verified (execution : ActiveExecutionRecord) (before : List Observation) (entry : Observation) : Prop :=
  ∀ target signal answer, entry = .sent target signal answer → target = execution.groupId ∧
    ∃ earlier probes, before = earlier ++ probes ∧ ExactProbes execution probes

theorem SawAbsent.append_left {groupId : Int} {first : List Observation} (h : SawAbsent groupId first)
    (rest : List Observation) : SawAbsent groupId (first ++ rest) := by
  obtain ⟨entry, hmem, habsent⟩ := h
  exact ⟨entry, List.mem_append_left rest hmem, habsent⟩

theorem SawAbsent.append_right {groupId : Int} {rest : List Observation} (h : SawAbsent groupId rest)
    (first : List Observation) : SawAbsent groupId (first ++ rest) := by
  obtain ⟨entry, hmem, habsent⟩ := h
  exact ⟨entry, List.mem_append_right first hmem, habsent⟩

theorem signals_append (first rest : List Observation) : signals (first ++ rest) = signals first ++ signals rest :=
  List.filterMap_append

/-- Entries without a signal. -/
def Quiet (entries : List Observation) : Prop := ∀ entry ∈ entries, entry.signal = none

theorem Quiet.signals {entries : List Observation} (h : Quiet entries) : signals entries = [] :=
  List.filterMap_eq_nil_iff.mpr h

theorem Quiet.append {first rest : List Observation} (h : Quiet first) (hrest : Quiet rest) : Quiet (first ++ rest) := by
  intro entry hmem
  rcases List.mem_append.mp hmem with hmem | hmem
  · exact h entry hmem
  · exact hrest entry hmem

/-- The loop's end for want of fuel is no error of the source. -/
def Thrown (e : BoundaryError) : Prop := e ≠ .unfinished

section Specs

variable {env : Environment} {execution : ActiveExecutionRecord}

theorem ask_logs {α : Type} (answer : Nat → α) (observation : α → Observation) :
    Logs id (ask answer observation) fun r entries => ∃ a, r = .ok a ∧ entries = [observation a] :=
  fun trace => ⟨[observation (answer trace.length)], rfl, answer trace.length, rfl, rfl⟩

theorem isProcessAlive_logs (pid : Int) :
    Logs id (isProcessAlive env pid) fun r entries => ∃ answer, entries = [.leader pid answer] ∧
      (r = .ok true ∧ Shows answer ∨ r = .ok false) := by
  unfold isProcessAlive
  refine Logs.bind (ask_logs (env.leader pid) (.leader pid)) ?_ ?_
  · rintro answer entries ⟨_, hanswer, rfl⟩
    cases hanswer
    refine Logs.pure ⟨answer, rfl, ?_⟩
    by_cases hexists : Shows answer
    · left
      refine ⟨?_, hexists⟩
      rcases hexists with rfl | rfl <;> rfl
    · right
      simp only [Shows, not_or] at hexists
      simp [hexists.1, hexists.2]
  · rintro e entries ⟨_, he, _⟩
    cases he

/-- What a probe of the group tells. -/
theorem processGroupExists_logs (groupId : Int) :
    Logs id (processGroupExists env groupId) fun r entries => Quiet entries ∧ (∀ e, r = .error e → Thrown e) ∧
      (r = .ok true → ∃ answer, Shows answer ∧ entries = [.group groupId answer]) ∧
      (r = .ok false → SawAbsent groupId entries) := by
  unfold processGroupExists
  refine Logs.ite ?_ ?_
  · intro _
    refine Logs.throw ⟨fun entry hmem => (by cases hmem), fun e he => ?_, fun h => (by cases h), fun h => (by cases h)⟩
    cases he
    intro h
    cases h
  · intro _
    refine Logs.bind (ask_logs (env.group groupId) (.group groupId)) ?_ ?_
    · rintro answer entries ⟨_, hanswer, rfl⟩
      cases hanswer
      have hquiet : Quiet [Observation.group groupId answer] := by
        intro entry hmem
        cases List.mem_singleton.mp hmem
        rfl
      cases answer with
      | delivered =>
        exact Logs.pure ⟨hquiet, fun e he => (by cases he), fun _ => ⟨_, .inl rfl, rfl⟩, fun h => (by cases h)⟩
      | failed code =>
        refine Logs.ite ?_ fun _ => Logs.ite ?_ ?_
        · rintro rfl
          exact Logs.pure ⟨hquiet, fun e he => (by cases he), fun h => (by cases h),
            fun _ => ⟨_, List.mem_singleton_self _, by simp [Observation.absent]⟩⟩
        · rintro rfl
          exact Logs.pure ⟨hquiet, fun e he => (by cases he), fun _ => ⟨_, .inr rfl, rfl⟩, fun h => (by cases h)⟩
        · intro _
          refine Logs.throw ⟨hquiet, fun e he => ?_, fun h => (by cases h), fun h => (by cases h)⟩
          cases he
          intro h
          cases h
    · rintro e entries ⟨_, he, _⟩
      cases he

theorem classifyLeader_logs (groupExists : Bool) :
    Logs id (classifyLeader env execution groupExists) fun r entries => Quiet entries ∧ (∃ liveness, r = .ok liveness) ∧
      (r = .ok .aliveExact → groupExists = true ∧
        entries = [.identity execution.pid (some execution.processIdentity),
          .groupOfLeader execution.pid (some execution.groupId)]) ∧
      (r = .ok .dead → groupExists = false) := by
  unfold classifyLeader
  refine Logs.bind (ask_logs (env.identity execution.pid) (.identity execution.pid)) ?_ ?_
  · rintro identity entries ⟨_, hidentity, rfl⟩
    cases hidentity
    have hquiet : Quiet [Observation.identity execution.pid identity] := by
      intro entry hmem
      cases List.mem_singleton.mp hmem
      rfl
    cases identity with
    | none => exact Logs.pure ⟨hquiet, ⟨_, rfl⟩, fun h => (by cases h), fun h => (by cases h)⟩
    | some identity =>
      dsimp only
      refine Logs.ite ?_ ?_
      · intro _
        refine Logs.pure ⟨hquiet, ⟨_, rfl⟩, fun h => ?_, fun h => ?_⟩
        · cases groupExists <;> cases h
        · cases groupExists with
          | true => cases h
          | false => rfl
      · intro hsame
        rw [ne_eq, Classical.not_not] at hsame
        subst hsame
        refine Logs.bind (ask_logs (env.groupOfLeader execution.pid) (.groupOfLeader execution.pid)) ?_ ?_
        · rintro currentGroupId entries ⟨_, hgroup, rfl⟩
          cases hgroup
          have hboth : Quiet ([Observation.identity execution.pid (some execution.processIdentity)] ++
              ([Observation.groupOfLeader execution.pid currentGroupId] ++ [])) := by
            refine hquiet.append fun entry hmem => ?_
            cases List.mem_singleton.mp hmem
            rfl
          refine Logs.ite ?_ ?_
          · intro _
            exact Logs.pure ⟨hboth, ⟨_, rfl⟩, fun h => (by cases h), fun h => (by cases h)⟩
          · intro hgroup
            rw [ne_eq, Classical.not_not] at hgroup
            subst hgroup
            refine Logs.pure ⟨hboth, ⟨_, rfl⟩, fun h => ?_, fun h => ?_⟩
            · cases groupExists with
              | true => exact ⟨rfl, rfl⟩
              | false => cases h
            · cases groupExists <;> cases h
        · rintro e entries ⟨_, he, _⟩
          cases he
  · rintro e entries ⟨_, he, _⟩
    cases he

/-- A classification sends nothing; exact, it saw all that it names; dead, it saw the group
    absent. -/
theorem classifyExecutionBoundary_logs :
    Logs id (classifyExecutionBoundary env execution) fun r entries => Quiet entries ∧ (∀ e, r = .error e → Thrown e) ∧
      (r = .ok .aliveExact → ExactProbes execution entries) ∧ (r = .ok .dead → SawAbsent execution.groupId entries) := by
  unfold classifyExecutionBoundary
  refine Logs.ite ?_ ?_
  · intro _
    exact Logs.pure ⟨fun entry hmem => (by cases hmem), fun e he => (by cases he), fun h => (by cases h), fun h => (by cases h)⟩
  · intro _
    refine Logs.bind (processGroupExists_logs execution.groupId) ?_ ?_
    · rintro groupExists groupEntries ⟨hquiet, -, hshown, habsent⟩
      refine Logs.bind (isProcessAlive_logs execution.pid) ?_ ?_
      · rintro alive leaderEntries ⟨answer, rfl, halive⟩
        have hleader : Quiet [Observation.leader execution.pid answer] := by
          intro entry hmem
          cases List.mem_singleton.mp hmem
          rfl
        -- a dead answer is given only where the group probe said so
        have hdead : (if groupExists then ExecutionBoundaryLiveness.ambiguous else .dead) = .dead →
            SawAbsent execution.groupId groupEntries := by
          intro h
          cases groupExists with
          | true => cases h
          | false => exact habsent rfl
        refine Logs.ite ?_ ?_
        · intro _
          refine Logs.pure ⟨hquiet.append (hleader.append fun entry hmem => (by cases hmem)), fun e he => (by cases he),
            fun h => ?_, fun h => ?_⟩
          · cases groupExists <;> cases h
          · exact (hdead (Except.ok.inj h)).append_left _
        · intro hnot
          have hshows : Shows answer := by
            rcases halive with ⟨-, h⟩ | h
            · exact h
            · exact absurd (Except.ok.inj h) hnot
          refine Logs.conseq (classifyLeader_logs groupExists) ?_
          rintro r entries ⟨hrest, ⟨liveness, rfl⟩, hexact, hdead⟩
          refine ⟨hquiet.append (hleader.append hrest), fun e he => (by cases he), fun h => ?_, fun h => ?_⟩
          · obtain ⟨rfl, rfl⟩ := hexact h
            obtain ⟨group, hgroup, rfl⟩ := hshown rfl
            exact ⟨group, answer, hgroup, hshows, rfl⟩
          · cases hdead h
            exact (habsent rfl).append_left _
      · rintro e entries ⟨_, _, h | h⟩
        · cases h.1
        · cases h
    · rintro e entries ⟨hquiet, hthrown, -, -⟩
      exact ⟨hquiet, fun e' he => hthrown e' (by cases he; rfl), fun h => (by cases h), fun h => (by cases h)⟩

/-- The loop sends nothing and ends well only when the group is absent. -/
theorem pollGroupAbsence_logs (groupId deadline : Int) (fuel : Nat) :
    Logs id (pollGroupAbsence env groupId deadline fuel) fun r entries =>
      Quiet entries ∧ (r = .ok true → SawAbsent groupId entries) := by
  induction fuel with
  | zero => exact Logs.throw ⟨fun entry hmem => (by cases hmem), fun h => (by cases h)⟩
  | succ fuel ih =>
    unfold pollGroupAbsence
    refine Logs.bind (processGroupExists_logs groupId) ?_ ?_
    · rintro groupExists entries ⟨hquiet, -, -, habsent⟩
      refine Logs.ite ?_ ?_
      · rintro rfl
        refine Logs.pure ?_
        rw [List.append_nil]
        exact ⟨hquiet, fun _ => habsent rfl⟩
      · intro _
        refine Logs.bind (ask_logs env.now .clock) ?_ ?_
        · rintro now clock ⟨_, hnow, rfl⟩
          cases hnow
          have hclock : Quiet [Observation.clock now] := by
            intro entry hmem
            cases List.mem_singleton.mp hmem
            rfl
          refine Logs.ite ?_ ?_
          · intro _
            refine Logs.pure ⟨hquiet.append (hclock.append fun entry hmem => (by cases hmem)), fun h => (by cases h)⟩
          · intro _
            refine Logs.conseq ih ?_
            rintro r rest ⟨hrest, hsaw⟩
            exact ⟨hquiet.append (hclock.append hrest), fun h => ((hsaw h).append_right _).append_right _⟩
        · rintro e entries ⟨_, he, _⟩
          cases he
    · rintro e entries ⟨hquiet, -, -, -⟩
      exact ⟨hquiet, fun h => (by cases h)⟩

theorem waitForGroupAbsence_logs (groupId timeoutMs : Int) (fuel : Nat) :
    Logs id (waitForGroupAbsence env groupId timeoutMs fuel) fun r entries =>
      Quiet entries ∧ (r = .ok true → SawAbsent groupId entries) := by
  unfold waitForGroupAbsence
  refine Logs.bind (ask_logs env.now .clock) ?_ ?_
  · rintro now entries ⟨_, hnow, rfl⟩
    cases hnow
    refine Logs.conseq (pollGroupAbsence_logs groupId (now + timeoutMs) fuel) ?_
    rintro r rest ⟨hquiet, hsaw⟩
    refine ⟨?_, fun h => (hsaw h).append_right _⟩
    intro entry hmem
    rcases List.mem_cons.mp hmem with rfl | hmem
    · rfl
    · exact hquiet entry hmem
  · rintro e entries ⟨_, he, _⟩
    cases he

/-! ## Signals -/

/-- Every signal comes right after an exact classification. -/
def EachVerified (execution : ActiveExecutionRecord) (entries : List Observation) : Prop :=
  EveryEntry (fun before entry _ => Verified execution before entry) entries

theorem Quiet.eachVerified {entries : List Observation} (h : Quiet entries) : EachVerified execution entries :=
  EveryEntry.of_mem fun entry hmem _ _ target signal answer hsent => by
    have hnone := h entry hmem
    rw [hsent] at hnone
    cases hnone

theorem EachVerified.append {first rest : List Observation} (h : EachVerified execution first)
    (hrest : EachVerified execution rest) : EachVerified execution (first ++ rest) := by
  refine EveryEntry.append h ?_
  intro before entry after hsplit target signal answer hsent
  obtain ⟨htarget, earlier, probes, rfl, hprobes⟩ := hrest before entry after hsplit target signal answer hsent
  exact ⟨htarget, first ++ earlier, probes, (List.append_assoc _ _ _).symm, hprobes⟩

/-- What one signal leaves: it was verified, or not sent. -/
structure SignalPost (execution : ActiveExecutionRecord) (signal : Signal) (r : Except BoundaryError SignalResult)
    (entries : List Observation) : Prop where
  verified : EachVerified execution entries
  order : signals entries = [] ∨ signals entries = [signal]
  thrown : ∀ e, r = .error e → Thrown e
  sent : r = .ok .signalled → signals entries = [signal]
  dead : r = .ok .alreadyDead → SawAbsent execution.groupId entries

theorem SignalPost.signals_prefix {signal : Signal} {r : Except BoundaryError SignalResult} {entries : List Observation}
    (h : SignalPost execution signal r entries) {allowed : List Signal} (hallowed : [signal] <+: allowed) :
    signals entries <+: allowed := by
  rcases h.order with hs | hs
  · rw [hs]
    exact List.nil_prefix
  · rw [hs]
    exact hallowed

theorem signalVerifiedGroup_logs (signal : Signal) :
    Logs id (signalVerifiedGroup env execution signal) (SignalPost execution signal) := by
  unfold signalVerifiedGroup
  refine Logs.bind classifyExecutionBoundary_logs ?_ ?_
  · rintro liveness entries ⟨hquiet, -, hexact, hdead⟩
    cases liveness with
    | dead =>
      refine Logs.pure ?_
      rw [List.append_nil]
      exact ⟨hquiet.eachVerified, .inl hquiet.signals, fun e he => (by cases he), fun h => (by cases h), fun _ => hdead rfl⟩
    | ambiguous =>
      refine Logs.throw ?_
      rw [List.append_nil]
      refine ⟨hquiet.eachVerified, .inl hquiet.signals, fun e he => ?_, fun h => (by cases h), fun h => (by cases h)⟩
      cases he
      intro h
      cases h
    | aliveExact =>
      refine Logs.bind (ask_logs (env.kill execution.groupId signal) (.sent execution.groupId signal)) ?_ ?_
      · rintro answer sent ⟨_, hanswer, rfl⟩
        cases hanswer
        have hverified : EachVerified execution (entries ++ [.sent execution.groupId signal answer]) := by
          apply EveryEntry.snoc hquiet.eachVerified
          rintro _ _ _ ⟨⟩
          exact ⟨rfl, [], entries, rfl, hexact rfl⟩
        have hsignals : Boundary.signals (entries ++ [.sent execution.groupId signal answer]) = [signal] := by
          rw [signals_append, hquiet.signals]
          rfl
        cases answer with
        | delivered =>
          refine Logs.pure ?_
          rw [List.append_nil]
          exact ⟨hverified, .inr hsignals, fun e he => (by cases he), fun _ => hsignals, fun h => (by cases h)⟩
        | failed code =>
          refine Logs.ite ?_ ?_
          · intro _
            refine Logs.throw ?_
            rw [List.append_nil]
            refine ⟨hverified, .inr hsignals, fun e he => ?_, fun h => (by cases h), fun h => (by cases h)⟩
            cases he
            intro h
            cases h
          · intro hcode
            rw [ne_eq, Classical.not_not] at hcode
            subst hcode
            refine Logs.pure ?_
            rw [List.append_nil]
            refine ⟨hverified, .inr hsignals, fun e he => (by cases he), fun h => (by cases h), fun _ => ?_⟩
            exact SawAbsent.append_right ⟨_, List.mem_singleton_self _, by simp [Observation.absent]⟩ entries
      · rintro e entries ⟨_, he, _⟩
        cases he
  · rintro e entries ⟨hquiet, hthrown, -, -⟩
    refine ⟨hquiet.eachVerified, .inl hquiet.signals, fun e' he => ?_, fun h => (by cases h), fun h => (by cases h)⟩
    exact hthrown e' (congrArg (Except.error) (Except.error.inj he))

/-- What the whole call leaves, of the signals still allowed. -/
structure TerminatePost (execution : ActiveExecutionRecord) (allowed : List Signal) (r : Except BoundaryError Unit)
    (entries : List Observation) : Prop where
  verified : EachVerified execution entries
  order : signals entries <+: allowed
  returns : r = .ok () → SawAbsent execution.groupId entries

theorem escalate_logs (confirmationMs : Int) (fuel : Nat) :
    Logs id (escalate env execution confirmationMs fuel) (TerminatePost execution [.SIGKILL]) := by
  unfold escalate
  refine Logs.bind (signalVerifiedGroup_logs .SIGKILL) ?_ ?_
  · intro result entries h
    have hprefix := h.signals_prefix (List.prefix_refl [Signal.SIGKILL])
    cases result with
    | alreadyDead =>
      refine Logs.pure ?_
      rw [List.append_nil]
      exact ⟨h.verified, hprefix, fun _ => h.dead rfl⟩
    | signalled =>
      refine Logs.bind (waitForGroupAbsence_logs execution.groupId confirmationMs fuel) ?_ ?_
      · rintro absent waited ⟨hquiet, hsaw⟩
        have hverified : EachVerified execution (entries ++ waited) := h.verified.append hquiet.eachVerified
        have hsignals : Boundary.signals (entries ++ waited) <+: [.SIGKILL] := by
          rw [signals_append, hquiet.signals, List.append_nil]
          exact hprefix
        refine Logs.ite ?_ ?_
        · rintro rfl
          refine Logs.pure ?_
          rw [List.append_nil]
          exact ⟨hverified, hsignals, fun _ => (hsaw rfl).append_right _⟩
        · intro _
          refine Logs.throw ?_
          rw [List.append_nil]
          exact ⟨hverified, hsignals, fun hr => (by cases hr)⟩
      · rintro e waited ⟨hquiet, _⟩
        refine ⟨h.verified.append hquiet.eachVerified, ?_, fun hr => (by cases hr)⟩
        rw [signals_append, hquiet.signals, List.append_nil]
        exact hprefix
  · intro e entries h
    exact ⟨h.verified, h.signals_prefix (List.prefix_refl [Signal.SIGKILL]), fun hr => (by cases hr)⟩

theorem terminateExact_logs (graceMs confirmationMs : Int) (fuel : Nat) :
    Logs id (terminateExact env execution graceMs confirmationMs fuel) (TerminatePost execution [.SIGTERM, .SIGKILL]) := by
  unfold terminateExact
  refine Logs.bind (signalVerifiedGroup_logs .SIGTERM) ?_ ?_
  · intro result entries h
    have hprefix := h.signals_prefix (List.prefix_append [Signal.SIGTERM] [.SIGKILL])
    cases result with
    | alreadyDead =>
      refine Logs.pure ?_
      rw [List.append_nil]
      exact ⟨h.verified, hprefix, fun _ => h.dead rfl⟩
    | signalled =>
      refine Logs.bind (waitForGroupAbsence_logs execution.groupId graceMs fuel) ?_ ?_
      · rintro absent waited ⟨hquiet, hsaw⟩
        have hverified : EachVerified execution (entries ++ waited) := h.verified.append hquiet.eachVerified
        refine Logs.ite ?_ ?_
        · rintro rfl
          refine Logs.pure ?_
          rw [List.append_nil]
          refine ⟨hverified, ?_, fun _ => (hsaw rfl).append_right _⟩
          rw [signals_append, hquiet.signals, List.append_nil]
          exact hprefix
        · intro _
          refine Logs.conseq (escalate_logs confirmationMs fuel) ?_
          intro r rest hrest
          rw [← List.append_assoc]
          refine ⟨hverified.append hrest.verified, ?_, fun hr => (hrest.returns hr).append_right _⟩
          rw [signals_append, signals_append, hquiet.signals, List.append_nil, h.sent rfl]
          exact (List.prefix_append_right_inj [Signal.SIGTERM]).mpr hrest.order
      · rintro e waited ⟨hquiet, _⟩
        refine ⟨h.verified.append hquiet.eachVerified, ?_, fun hr => (by cases hr)⟩
        rw [signals_append, hquiet.signals, List.append_nil]
        exact hprefix
  · intro e entries h
    exact ⟨h.verified, h.signals_prefix (List.prefix_append [Signal.SIGTERM] [.SIGKILL]), fun hr => (by cases hr)⟩

theorem terminateExecutionBoundary_logs (graceMs confirmationMs : Option Int) (fuel : Nat) :
    Logs id (terminateExecutionBoundary env execution graceMs confirmationMs fuel)
      (TerminatePost execution [.SIGTERM, .SIGKILL]) := by
  unfold terminateExecutionBoundary
  refine Logs.bind classifyExecutionBoundary_logs ?_ ?_
  · rintro liveness entries ⟨hquiet, -, -, hdead⟩
    have hnone : Boundary.signals entries <+: [.SIGTERM, .SIGKILL] := by
      rw [hquiet.signals]
      exact List.nil_prefix
    cases liveness with
    | dead =>
      refine Logs.pure ?_
      rw [List.append_nil]
      exact ⟨hquiet.eachVerified, hnone, fun _ => hdead rfl⟩
    | ambiguous =>
      refine Logs.throw ?_
      rw [List.append_nil]
      exact ⟨hquiet.eachVerified, hnone, fun hr => (by cases hr)⟩
    | aliveExact =>
      refine Logs.conseq (terminateExact_logs _ _ fuel) ?_
      intro r rest hrest
      refine ⟨hquiet.eachVerified.append hrest.verified, ?_, fun hr => (hrest.returns hr).append_right _⟩
      rw [signals_append, hquiet.signals]
      exact hrest.order
  · rintro e entries ⟨hquiet, -, -, -⟩
    refine ⟨hquiet.eachVerified, ?_, fun hr => (by cases hr)⟩
    rw [hquiet.signals]
    exact List.nil_prefix

/-! ## The call ends -/

/-- Sooner or later every answer of the clock is past any bound. -/
def ClockAdvances (env : Environment) : Prop := ∀ bound, ∃ n, ∀ m ≥ n, bound ≤ env.now m

/-- The run from this world has come to an end of the source's. -/
def Ends {α : Type} (x : Probe α) (trace : List Observation) : Prop := ∀ e, (x.run trace).1 = .error e → Thrown e

theorem Ends.bind {α β : Type} {x : Probe α} {f : α → Probe β} {trace : List Observation} (hx : Ends x trace)
    (hf : ∀ a, (x.run trace).1 = .ok a → Ends (f a) (x.run trace).2) : Ends (x >>= f) trace := by
  intro e he
  rw [Action.run_bind] at he
  cases hr : x.run trace with
  | mk r next =>
    rw [hr] at he
    cases r with
    | error e' =>
      cases he
      exact hx e (by rw [hr])
    | ok a =>
      have h := hf a (by rw [hr])
      rw [hr] at h
      exact h e he

theorem Ends.ask {α : Type} (answer : Nat → α) (observation : α → Observation) (trace : List Observation) :
    Ends (ask answer observation) trace := fun e he => by cases he

theorem Logs.ends {α : Type} {x : Probe α} {Q : Except BoundaryError α → List Observation → Prop} (h : Logs id x Q)
    (hq : ∀ e entries, Q (.error e) entries → Thrown e) (trace : List Observation) : Ends x trace := by
  intro e he
  obtain ⟨entries, -, hentries⟩ := h trace
  rw [he] at hentries
  exact hq e entries hentries

theorem Ends.of_bind {α β : Type} {x : Probe α} {f : α → Probe β} {trace next : List Observation} {a : α}
    (h : Ends (x >>= f) trace) (hx : x.run trace = (.ok a, next)) : Ends (f a) next := by
  intro e he
  apply h e
  rw [Action.run_bind, hx]
  exact he

/-- One round of the loop. -/
theorem pollGroupAbsence_succ (groupId deadline : Int) (fuel : Nat) :
    pollGroupAbsence env groupId deadline (fuel + 1) = (processGroupExists env groupId >>= fun groupExists =>
      if groupExists = false then pure true
      else ask env.now .clock >>= fun now =>
        if now ≥ deadline then pure false else pollGroupAbsence env groupId deadline fuel) := rfl

/-- Each round asks the clock later, so the loop ends by the time the clock has passed the
    deadline. -/
theorem pollGroupAbsence_ends {groupId deadline : Int} {n : Nat} (hn : ∀ m ≥ n, deadline ≤ env.now m) (fuel : Nat)
    (trace : List Observation) (hfuel : n ≤ trace.length + fuel) (hpos : 0 < fuel) :
    Ends (pollGroupAbsence env groupId deadline fuel) trace := by
  induction fuel generalizing trace with
  | zero => exact absurd hpos (Nat.lt_irrefl 0)
  | succ fuel ih =>
    rw [pollGroupAbsence_succ]
    have hprobe := @processGroupExists_logs env groupId
    refine Ends.bind (Logs.ends hprobe (fun e entries h => h.2.1 e rfl) trace) ?_
    intro groupExists hgroup
    cases groupExists with
    | false =>
      rw [if_pos rfl]
      intro e he
      cases he
    | true =>
      obtain ⟨entries, htrace, -, -, hshown, -⟩ := hprobe trace
      obtain ⟨answer, -, rfl⟩ := hshown hgroup
      have hlength : ((processGroupExists env groupId).run trace).2.length = trace.length + 1 := by
        rw [show ((processGroupExists env groupId).run trace).2 = trace ++ [.group groupId answer] from htrace, List.length_append,
          List.length_singleton]
      generalize ((processGroupExists env groupId).run trace).2 = next at hlength
      rw [if_neg (by decide)]
      refine Ends.bind (Ends.ask env.now .clock next) ?_
      intro now hnow
      cases hnow
      by_cases hpast : env.now next.length ≥ deadline
      · rw [if_pos hpast]
        intro e he
        cases he
      · rw [if_neg hpast]
        have hlt : next.length < n := by
          rcases Nat.lt_or_ge next.length n with hlt | hge
          · exact hlt
          · exact absurd (hn _ hge) hpast
        have hnext : ((ask env.now Observation.clock : Probe Int).run next).2.length = next.length + 1 := by
          show (next ++ [_]).length = _
          rw [List.length_append, List.length_singleton]
        apply ih
        · rw [hnext]
          omega
        · omega

/-- More fuel changes nothing once the loop has ended. -/
theorem pollGroupAbsence_mono {groupId deadline : Int} {fuel more : Nat} {trace : List Observation}
    (h : Ends (pollGroupAbsence env groupId deadline fuel) trace) (hle : fuel ≤ more) :
    (pollGroupAbsence env groupId deadline more).run trace = (pollGroupAbsence env groupId deadline fuel).run trace := by
  induction fuel generalizing trace more with
  | zero => exact absurd rfl (h .unfinished rfl)
  | succ fuel ih =>
    obtain ⟨more, rfl⟩ : ∃ m, more = m + 1 := ⟨more - 1, by omega⟩
    rw [pollGroupAbsence_succ] at h
    rw [pollGroupAbsence_succ, pollGroupAbsence_succ, Action.run_bind, Action.run_bind]
    cases hprobe : (processGroupExists env groupId).run trace with
    | mk r next =>
      cases r with
      | error e => rfl
      | ok groupExists =>
        have h := h.of_bind hprobe
        cases groupExists with
        | false => rfl
        | true =>
          rw [if_neg (by decide)] at h
          dsimp only
          rw [if_neg (by decide), if_neg (by decide), Action.run_bind, Action.run_bind]
          have hclock : (ask env.now Observation.clock : Probe Int).run next =
              (.ok (env.now next.length), next ++ [.clock (env.now next.length)]) := rfl
          have h := h.of_bind hclock
          rw [hclock]
          dsimp only
          by_cases hpast : env.now next.length ≥ deadline
          · rw [if_pos hpast, if_pos hpast]
          · rw [if_neg hpast] at h
            rw [if_neg hpast, if_neg hpast]
            exact ih h (by omega)

/-- From this world some fuel is enough, and more makes no difference. -/
def Settles {α : Type} (x : Nat → Probe α) (trace : List Observation) : Prop :=
  ∃ enough result, (∀ fuel ≥ enough, (x fuel).run trace = result) ∧ ∀ e, result.1 = .error e → Thrown e

theorem Settles.of_ends {α : Type} {x : Probe α} {trace : List Observation} (h : Ends x trace) : Settles (fun _ => x) trace :=
  ⟨0, x.run trace, fun _ _ => rfl, h⟩

theorem Settles.bind {α β : Type} {x : Nat → Probe α} {f : α → Nat → Probe β} {trace : List Observation}
    (hx : Settles x trace) (hf : ∀ a next, Settles (f a) next) : Settles (fun fuel => x fuel >>= fun a => f a fuel) trace := by
  obtain ⟨enough, result, hrun, hthrown⟩ := hx
  obtain ⟨r, next⟩ := result
  cases r with
  | error e =>
    refine ⟨enough, (.error e, next), fun fuel hfuel => ?_, fun e' he => hthrown e' (by cases he; rfl)⟩
    rw [Action.run_bind, hrun fuel hfuel]
  | ok a =>
    obtain ⟨more, result, hmore, hend⟩ := hf a next
    refine ⟨max enough more, result, fun fuel hfuel => ?_, hend⟩
    rw [Action.run_bind, hrun fuel (by omega)]
    exact hmore fuel (by omega)

theorem waitForGroupAbsence_settles (hclock : ClockAdvances env) (groupId timeoutMs : Int) (trace : List Observation) :
    Settles (waitForGroupAbsence env groupId timeoutMs) trace := by
  obtain ⟨n, hn⟩ := hclock (env.now trace.length + timeoutMs)
  have hends : Ends (pollGroupAbsence env groupId (env.now trace.length + timeoutMs) (n + 1))
      (trace ++ [.clock (env.now trace.length)]) := pollGroupAbsence_ends hn (n + 1) _ (by omega) (by omega)
  exact ⟨n + 1, _, fun fuel hfuel => pollGroupAbsence_mono hends hfuel, hends⟩

theorem signalVerifiedGroup_settles (signal : Signal) (trace : List Observation) :
    Settles (fun _ => signalVerifiedGroup env execution signal) trace :=
  Settles.of_ends (Logs.ends (signalVerifiedGroup_logs signal) (fun e _ h => h.thrown e rfl) trace)

theorem Settles.return (trace : List Observation) : Settles (fun _ => (pure () : Probe Unit)) trace :=
  Settles.of_ends fun e he => by cases he

theorem Settles.throw (message : String) (trace : List Observation) :
    Settles (fun _ => (Action.throw (.boundary message) : Probe Unit)) trace := by
  apply Settles.of_ends
  intro e he
  cases he
  intro h
  cases h

theorem escalate_settles (hclock : ClockAdvances env) (confirmationMs : Int) (trace : List Observation) :
    Settles (escalate env execution confirmationMs) trace := by
  unfold escalate
  refine Settles.bind (signalVerifiedGroup_settles .SIGKILL trace) ?_
  intro result next
  cases result with
  | alreadyDead => exact Settles.return next
  | signalled =>
    refine Settles.bind (waitForGroupAbsence_settles hclock execution.groupId confirmationMs next) ?_
    intro absent last
    cases absent with
    | true => exact Settles.return last
    | false => exact Settles.throw _ last

theorem terminateExact_settles (hclock : ClockAdvances env) (graceMs confirmationMs : Int) (trace : List Observation) :
    Settles (terminateExact env execution graceMs confirmationMs) trace := by
  unfold terminateExact
  refine Settles.bind (signalVerifiedGroup_settles .SIGTERM trace) ?_
  intro result next
  cases result with
  | alreadyDead => exact Settles.return next
  | signalled =>
    refine Settles.bind (waitForGroupAbsence_settles hclock execution.groupId graceMs next) ?_
    intro absent last
    cases absent with
    | true => exact Settles.return last
    | false => exact escalate_settles hclock confirmationMs last

theorem terminateExecutionBoundary_settles (hclock : ClockAdvances env) (graceMs confirmationMs : Option Int)
    (trace : List Observation) : Settles (terminateExecutionBoundary env execution graceMs confirmationMs) trace := by
  unfold terminateExecutionBoundary
  refine Settles.bind (x := fun _ => classifyExecutionBoundary env execution)
    (Settles.of_ends (Logs.ends classifyExecutionBoundary_logs (fun e _ h => h.2.1 e rfl) trace)) ?_
  intro liveness next
  cases liveness with
  | dead => exact Settles.return next
  | ambiguous => exact Settles.throw _ next
  | aliveExact => exact terminateExact_settles hclock _ _ next

end Specs

/-- Whatever the environment answers, with any fuel: signals go to the recorded group, right
    after an exact classification, SIGTERM before SIGKILL, each once at most; the call returns
    only if it saw that group absent. Where the clock advances it ends, returning or throwing. -/
theorem terminate_spec (env : Environment) (execution : ActiveExecutionRecord) (graceMs confirmationMs : Option Int) :
    (∀ fuel r trace, (terminateExecutionBoundary env execution graceMs confirmationMs fuel).run [] = (r, trace) →
      EachVerified execution trace ∧ signals trace <+: [.SIGTERM, .SIGKILL] ∧
        (r = .ok () → SawAbsent execution.groupId trace)) ∧
    (ClockAdvances env → ∃ enough, ∀ fuel ≥ enough, ∀ r trace,
      (terminateExecutionBoundary env execution graceMs confirmationMs fuel).run [] = (r, trace) →
        r = .ok () ∧ SawAbsent execution.groupId trace ∨ ∃ e, r = .error e ∧ e ≠ .unfinished) := by
  constructor
  · intro fuel r trace hrun
    obtain ⟨entries, hentries, hpost⟩ := @terminateExecutionBoundary_logs env execution graceMs confirmationMs fuel []
    rw [hrun] at hentries hpost
    have htrace : trace = entries := hentries.trans (List.nil_append _)
    subst htrace
    exact ⟨hpost.verified, hpost.order, hpost.returns⟩
  · intro hclock
    obtain ⟨enough, result, hsettles, hthrown⟩ :=
      @terminateExecutionBoundary_settles env execution hclock graceMs confirmationMs []
    refine ⟨enough, fun fuel hfuel r trace hrun => ?_⟩
    have hresult := (hsettles fuel hfuel).symm.trans hrun
    cases r with
    | ok u =>
      left
      obtain ⟨entries, hentries, hpost⟩ := @terminateExecutionBoundary_logs env execution graceMs confirmationMs fuel []
      rw [hrun] at hentries hpost
      have htrace : trace = entries := hentries.trans (List.nil_append _)
      subst htrace
      exact ⟨rfl, hpost.returns rfl⟩
    | error e => exact .inr ⟨e, rfl, hthrown e (by rw [hresult])⟩

/-! ### A group that goes on SIGTERM -/

def sampleEnvironment : Environment where
  supported := true
  group groupId n := if groupId = 41 ∧ n < 10 then .delivered else .failed "ESRCH"
  leader pid _ := if pid = 41 then .delivered else .failed "ESRCH"
  identity pid _ := if pid = 41 then some "linux-proc:b:7" else none
  groupOfLeader pid _ := if pid = 41 then some 41 else none
  kill groupId _ _ := if groupId = 41 then .delivered else .failed "ESRCH"
  now n := n

def sampleExecution : ActiveExecutionRecord :=
  ⟨"e", 1, 41, "linux-proc:b:7", 41, posixExecutionBoundaryKind, "o", .startAuthorized⟩

theorem terminate_spec_sample : ClockAdvances sampleEnvironment ∧
    ∃ enough, ∀ fuel ≥ enough, ∀ r trace,
      (terminateExecutionBoundary sampleEnvironment sampleExecution none none fuel).run [] = (r, trace) →
        r = .ok () ∧ SawAbsent 41 trace ∨ ∃ e, r = .error e ∧ e ≠ .unfinished := by
  have hclock : ClockAdvances sampleEnvironment := by
    intro bound
    refine ⟨bound.toNat, fun m hm => ?_⟩
    show bound ≤ (m : Int)
    omega
  exact ⟨hclock, (terminate_spec sampleEnvironment sampleExecution none none).2 hclock⟩

example : ((terminateExecutionBoundary sampleEnvironment sampleExecution none none 5).run []).1.toOption = some () := by
  decide

end GitCommitsPush.Reconciliation.Boundary
