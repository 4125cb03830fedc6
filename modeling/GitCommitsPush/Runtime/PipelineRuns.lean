/-
  GitCommitsPush.Runtime.PipelineRuns — what the supervisor has done to its stages, and what it
  answers, over every order of the events.

  - `stages_signalled`: a stage is asked to stop once and killed once the grace has passed, only
    while it runs, and always when there is cause.
  - `pipeline_verdict`: the supervisor dies of the first signal it was sent; otherwise it returns
    zero exactly when nothing went wrong.
-/

import GitCommitsPush.Lib.Computed
import GitCommitsPush.Runtime.NodeSupervisor

namespace GitCommitsPush.Runtime.Supervisor

open GitCommitsPush.Lib.Computed
open GitCommitsPush.Lib.Runs

/-! ## What the helpers do -/

/-- The signals given to a stage. -/
def given (p : Pipeline) (stage : StageName) : List SentSignal := (p.signals.filter fun sent => sent.1 == stage).map (·.2)

section Helpers

variable {p q : Pipeline} {stage other : StageName} {child : Child}

@[simp] theorem setChild_same : (p.setChild stage child).child stage = child := by cases stage <;> rfl

theorem setChild_other (h : other ≠ stage) : (p.setChild stage child).child other = p.child other := by
  cases stage <;> cases other <;> first | rfl | exact absurd rfl h

/-- Everything but the children. -/
structure Beside (p q : Pipeline) : Prop where
  readableEnded : q.readableEnded = p.readableEnded
  started : q.terminationStarted = p.terminationStarted
  timer : q.forceKillTimer = p.forceKillTimer
  ioError : q.ioError = p.ioError
  listening : q.listening = p.listening
  aborted : q.aborted = p.aborted
  received : q.receivedSignal = p.receivedSignal
  signals : q.signals = p.signals
  result : q.result = p.result
  ending : q.ending = p.ending

theorem setChild_beside (p : Pipeline) (stage : StageName) (child : Child) : Beside p (p.setChild stage child) := by
  cases stage <;> exact ⟨rfl, rfl, rfl, rfl, rfl, rfl, rfl, rfl, rfl, rfl⟩

theorem Beside.given (h : Beside p q) (stage : StageName) : given q stage = given p stage := by
  unfold Supervisor.given
  rw [h.signals]

theorem given_signalRunning (p : Pipeline) (signal : SentSignal) (stage : StageName) :
    given (signalRunning p signal) stage = given p stage ++ (if isRunning (p.child stage) then [signal] else []) := by
  unfold given signalRunning
  rw [List.filter_append, List.map_append]
  congr 1
  cases stage <;> by_cases hp : isRunning (p.child .producer) = true <;> by_cases hc : isRunning (p.child .consumer) = true <;>
    simp [hp, hc]

/-- Everything but the signals, the timer and whether termination has begun. -/
structure Terminates (p q : Pipeline) : Prop where
  child : ∀ stage, q.child stage = p.child stage
  readableEnded : q.readableEnded = p.readableEnded
  ioError : q.ioError = p.ioError
  listening : q.listening = p.listening
  aborted : q.aborted = p.aborted
  received : q.receivedSignal = p.receivedSignal
  result : q.result = p.result
  ending : q.ending = p.ending
  started : q.terminationStarted = true

theorem terminateChildren_terminates (p : Pipeline) : Terminates p (terminateChildren p) := by
  unfold terminateChildren
  by_cases h : p.terminationStarted = true
  · rw [if_pos h]
    exact ⟨fun _ => rfl, rfl, rfl, rfl, rfl, rfl, rfl, rfl, h⟩
  · rw [if_neg h]
    refine ⟨fun stage => ?_, rfl, rfl, rfl, rfl, rfl, rfl, rfl, rfl⟩
    cases stage <;> rfl

end Helpers

/-! ## Signals -/

/-- No signal is given, no timer set, and no stage starts to run. -/
structure Quietly (p q : Pipeline) : Prop where
  signals : q.signals = p.signals
  started : q.terminationStarted = p.terminationStarted
  running : ∀ stage, isRunning (q.child stage) = true → isRunning (p.child stage) = true
  timer : q.forceKillTimer = p.forceKillTimer ∨ (q.forceKillTimer = false ∧ q.result.isSome = true)
  result : p.result.isSome = true → q.result.isSome = true

theorem Quietly.setChild {p : Pipeline} {stage : StageName} {child : Child} (h : isRunning child = true → isRunning (p.child stage) = true) :
    Quietly p (p.setChild stage child) := by
  have hbeside := setChild_beside p stage child
  refine ⟨hbeside.signals, hbeside.started, fun other hother => ?_, .inl hbeside.timer, fun hresult => hbeside.result ▸ hresult⟩
  by_cases hne : other = stage
  · subst hne
    rw [setChild_same] at hother
    exact h hother
  · rwa [setChild_other hne] at hother

/-- A turn changes quietly, and may then begin the termination; or the grace has passed. -/
theorem advance_cases {p q : Pipeline} {event : Event} (h : advance p event = some q) :
    (∃ m, Quietly p m ∧ (q = m ∨ q = terminateChildren m)) ∨
      (p.forceKillTimer = true ∧ q = signalRunning { p with forceKillTimer := false } .sigkill) := by
  have hsame : Quietly p p := ⟨rfl, rfl, fun _ h => h, .inl rfl, id⟩
  unfold advance at h
  split at h
  · cases h
  cases event with
  | errored stage error exitCode =>
    dsimp only at h
    split at h
    · cases h
    · cases h
      refine .inl ⟨_, Quietly.setChild fun hrunning => ?_, .inr rfl⟩
      by_cases hchild : isRunning (p.child stage) = true
      · exact hchild
      · rw [if_neg hchild] at hrunning
        exact hrunning
  | exited stage exitCode signal =>
    dsimp only at h
    split at h
    · cases h
    · rename_i hguard
      have hquiet : Quietly p (p.setChild stage { p.child stage with exitCode := exitCode, signalCode := signal }) :=
        .setChild fun _ => by simpa using fun hrunning => hguard (.inl hrunning)
      cases h
      refine .inl ⟨_, hquiet, ?_⟩
      split
      · exact .inr rfl
      · exact .inl rfl
  | closed stage =>
    dsimp only at h
    split at h
    · cases h
    · cases h
      refine .inl ⟨_, ?_, .inl rfl⟩
      exact .setChild id
  | ended =>
    cases h
    refine .inl ⟨_, ?_, .inl rfl⟩
    exact ⟨rfl, rfl, fun stage h => (by cases stage <;> exact h), .inl rfl, id⟩
  | streamFailed error =>
    dsimp only at h
    split at h
    · cases h
    · cases h
      unfold recordIoError
      split
      · exact .inl ⟨p, hsame, .inl rfl⟩
      · refine .inl ⟨_, ?_, .inr rfl⟩
        exact ⟨rfl, rfl, fun stage h => (by cases stage <;> exact h), .inl rfl, id⟩
  | graceElapsed =>
    dsimp only at h
    split at h
    · rename_i htimer
      cases h
      exact .inr ⟨htimer, rfl⟩
    · cases h
  | received signal =>
    cases h
    let next : Pipeline := { p with receivedSignal := some (p.receivedSignal.getD signal), aborted := true, listening := false }
    have hquiet : Quietly p next := ⟨rfl, rfl, fun stage h => (by cases stage <;> exact h), .inl rfl, id⟩
    refine .inl ⟨next, hquiet, ?_⟩
    split
    · exact .inr rfl
    · exact .inl rfl
  | resumed =>
    dsimp only at h
    split at h
    · cases h
      refine .inl ⟨_, ?_, .inl rfl⟩
      exact ⟨rfl, rfl, fun stage h => (by cases stage <;> exact h), .inr ⟨rfl, rfl⟩, fun _ => rfl⟩
    · cases h
  | concluded =>
    obtain ⟨result, -, rfl⟩ := Option.map_eq_some_iff.mp h
    refine .inl ⟨_, ?_, .inl rfl⟩
    exact ⟨rfl, rfl, fun stage h => (by cases stage <;> exact h), .inl rfl, id⟩

/-- What is given to the stages. -/
structure Sent (p : Pipeline) : Prop where
  untouched : p.terminationStarted = false → (∀ stage, given p stage = []) ∧ p.forceKillTimer = false
  once : ∀ stage, given p stage <+: [.sigterm, .sigkill]
  waiting : p.forceKillTimer = true → ∀ stage, given p stage <+: [.sigterm]
  asked : p.terminationStarted = true → ∀ stage, isRunning (p.child stage) = true → SentSignal.sigterm ∈ given p stage
  killed : p.terminationStarted = true → p.forceKillTimer = false → p.result = none → ∀ stage, isRunning (p.child stage) = true →
    given p stage = [.sigterm, .sigkill]

theorem Sent.quietly {p q : Pipeline} (h : Sent p) (hq : Quietly p q) : Sent q := by
  have hgiven : ∀ stage, given q stage = given p stage := fun stage => by
    unfold given
    rw [hq.signals]
  have htimer : q.forceKillTimer = true → p.forceKillTimer = true := by
    intro htimer
    rcases hq.timer with hsame | ⟨hclear, -⟩
    · rwa [← hsame]
    · rw [hclear] at htimer
      cases htimer
  refine ⟨fun hidle => ?_, fun stage => hgiven stage ▸ h.once stage, fun htime stage => hgiven stage ▸ h.waiting (htimer htime) stage,
    fun hstarted stage hrunning => hgiven stage ▸ h.asked (hq.started ▸ hstarted) stage (hq.running stage hrunning),
    fun hstarted htime hresult stage hrunning => ?_⟩
  · obtain ⟨hnone, hclear⟩ := h.untouched (hq.started ▸ hidle)
    refine ⟨fun stage => (hgiven stage).trans (hnone stage), ?_⟩
    cases htime : q.forceKillTimer with
    | false => rfl
    | true => rw [← htimer htime, hclear]
  · rw [hgiven]
    have hresult' : p.result = none := by
      cases hsome : p.result with
      | none => rfl
      | some result =>
        have hkept := hq.result (by rw [hsome]; rfl)
        rw [hresult] at hkept
        cases hkept
    refine h.killed (hq.started ▸ hstarted) ?_ hresult' stage (hq.running stage hrunning)
    rcases hq.timer with hsame | ⟨-, hsome⟩
    · rw [← hsame]
      exact htime
    · rw [hresult] at hsome
      cases hsome

theorem Sent.terminate {p : Pipeline} (h : Sent p) : Sent (terminateChildren p) := by
  unfold terminateChildren
  by_cases hstarted : p.terminationStarted = true
  · rw [if_pos hstarted]
    exact h
  · rw [if_neg hstarted]
    obtain ⟨hnone, -⟩ := h.untouched (by simpa using hstarted)
    generalize hq : ({ signalRunning { p with terminationStarted := true } .sigterm with forceKillTimer := true } : Pipeline) = q
    have hgiven : ∀ stage, given q stage = if isRunning (p.child stage) then [.sigterm] else [] := by
      intro stage
      have hsent := given_signalRunning { p with terminationStarted := true } .sigterm stage
      have hold : given { p with terminationStarted := true } stage = [] := hnone stage
      rw [hold, List.nil_append] at hsent
      rw [← hq]
      refine hsent.trans ?_
      cases stage <;> rfl
    have hchild : ∀ stage, q.child stage = p.child stage := by
      intro stage
      rw [← hq]
      cases stage <;> rfl
    have hasked : ∀ stage, given q stage <+: [.sigterm] := by
      intro stage
      rw [hgiven]
      split
      · exact List.prefix_rfl
      · exact List.nil_prefix
    refine ⟨fun hidle => ?_, fun stage => (hasked stage).trans ⟨[.sigkill], rfl⟩, fun _ => hasked, fun _ stage hrunning => ?_, fun _ htimer => ?_⟩
    · rw [← hq] at hidle
      cases hidle
    · rw [hchild] at hrunning
      rw [hgiven, if_pos hrunning]
      exact List.mem_singleton.mpr rfl
    · rw [← hq] at htimer
      cases htimer

theorem Sent.kill {p : Pipeline} (h : Sent p) (htimer : p.forceKillTimer = true) :
    Sent (signalRunning { p with forceKillTimer := false } .sigkill) := by
  have hstarted : p.terminationStarted = true := by
    cases hidle : p.terminationStarted with
    | true => rfl
    | false =>
      rw [(h.untouched hidle).2] at htimer
      cases htimer
  have hgiven : ∀ stage, given (signalRunning { p with forceKillTimer := false } .sigkill) stage =
      given p stage ++ (if isRunning (p.child stage) then [.sigkill] else []) := by
    intro stage
    refine (given_signalRunning { p with forceKillTimer := false } .sigkill stage).trans ?_
    cases stage <;> rfl
  have hchild : ∀ stage, (signalRunning { p with forceKillTimer := false } .sigkill).child stage = p.child stage := by
    intro stage
    cases stage <;> rfl
  -- a stage that still runs was asked to stop and no more
  have hrunning : ∀ stage, isRunning (p.child stage) = true → given p stage = [.sigterm] := by
    intro stage hruns
    have hmem := h.asked hstarted stage hruns
    rcases List.prefix_concat_iff.mp (show given p stage <+: [] ++ [SentSignal.sigterm] from h.waiting htimer stage) with heq | hnil
    · exact heq
    · rw [List.prefix_nil.mp hnil] at hmem
      cases hmem
  refine ⟨fun hidle => ?_, fun stage => ?_, (fun h => by cases h), fun _ stage hruns => ?_, fun _ _ _ stage hruns => ?_⟩
  · rw [show (signalRunning { p with forceKillTimer := false } .sigkill).terminationStarted = p.terminationStarted from rfl, hstarted] at hidle
    cases hidle
  · rw [hgiven]
    by_cases hruns : isRunning (p.child stage) = true
    · rw [if_pos hruns, hrunning stage hruns]
      exact List.prefix_rfl
    · rw [if_neg hruns, List.append_nil]
      exact h.once stage
  · rw [hchild] at hruns
    rw [hgiven]
    exact List.mem_append_left _ (h.asked hstarted stage hruns)
  · rw [hchild] at hruns
    rw [hgiven, if_pos hruns, hrunning stage hruns]
    rfl

theorem Sent.step {p q : Pipeline} {event : Event} (h : Sent p) (hstep : advance p event = some q) : Sent q := by
  rcases advance_cases hstep with ⟨m, hquiet, rfl | rfl⟩ | ⟨htimer, rfl⟩
  · exact h.quietly hquiet
  · exact (h.quietly hquiet).terminate
  · exact h.kill htimer

/-- A stage that has ended is given nothing more, and has ended for good. -/
theorem ended_step {p q : Pipeline} {event : Event} {stage : StageName} (hstep : advance p event = some q)
    (hended : isRunning (p.child stage) = false) : isRunning (q.child stage) = false ∧ given q stage = given p stage := by
  have hquiet : ∀ m, Quietly p m → isRunning (m.child stage) = false ∧ given m stage = given p stage := by
    intro m hm
    refine ⟨?_, by unfold given; rw [hm.signals]⟩
    cases hruns : isRunning (m.child stage) with
    | false => rfl
    | true => rw [← hm.running stage hruns, hended]
  rcases advance_cases hstep with ⟨m, hm, rfl | rfl⟩ | ⟨-, rfl⟩
  · exact hquiet q hm
  · obtain ⟨hruns, hsame⟩ := hquiet m hm
    refine ⟨by rw [(terminateChildren_terminates m).child]; exact hruns, ?_⟩
    unfold terminateChildren
    split
    · exact hsame
    · have hsent := given_signalRunning { m with terminationStarted := true } .sigterm stage
      have hchild : ({ m with terminationStarted := true } : Pipeline).child stage = m.child stage := by cases stage <;> rfl
      rw [hchild, hruns, if_neg Bool.false_ne_true, List.append_nil] at hsent
      exact hsent.trans hsame
  · have hsent := given_signalRunning { p with forceKillTimer := false } .sigkill stage
    have hchild : ({ p with forceKillTimer := false } : Pipeline).child stage = p.child stage := by cases stage <;> rfl
    rw [hchild, hended, if_neg Bool.false_ne_true, List.append_nil] at hsent
    refine ⟨?_, hsent⟩
    cases stage <;> exact hended

/-! ## What is known of the events -/

/-- The signal the supervisor is sent. -/
def Event.signal? : Event → Option SupervisorSignal
  | .received signal => some signal
  | _ => none

def Event.errs (stage : StageName) : Event → Bool
  | .errored other _ _ => other == stage
  | _ => false

/-- A stream fails for another reason than that its reader is gone. -/
def Event.breaks : Event → Bool
  | .streamFailed error => error.code != some "EPIPE"
  | _ => false

def Event.exit? (stage : StageName) : Event → Option (Option Int × Option String)
  | .exited other exitCode signal => if other = stage then some (exitCode, signal) else none
  | _ => none

/-- What the state says of the events so far. -/
structure Told (events : List Event) (p : Pipeline) : Prop where
  received : p.receivedSignal = events.findSome? Event.signal?
  aborted : p.aborted = p.receivedSignal.isSome
  broken : p.ioError.isSome = events.any Event.breaks
  errored : ∀ stage, (p.child stage).spawnError.isSome = events.any (Event.errs stage)
  exited : ∀ stage, (p.child stage).spawnError = none → isRunning (p.child stage) = false →
    events.findSome? (Event.exit? stage) = some ((p.child stage).exitCode, (p.child stage).signalCode)
  silent : ∀ stage, isRunning (p.child stage) = true → events.findSome? (Event.exit? stage) = none
  observed : ∀ stage result, (p.child stage).result = some result →
    result = ⟨(p.child stage).exitCode, (p.child stage).signalCode, (p.child stage).spawnError⟩ ∧ isRunning (p.child stage) = false
  answered : ∀ result, p.result = some result → p.producer.result = some result.producer ∧ p.consumer.result = some result.consumer ∧
    result.exitCode = resolvePipelineExitCode result.producer result.consumer p.ioError
  ending : ∀ ending, p.ending = some ending → ∃ result, p.result = some result ∧
    ending = p.receivedSignal.elim (.returned result.exitCode) .raised

theorem Told.terminate {events : List Event} {p : Pipeline} (h : Told events p) : Told events (terminateChildren p) := by
  have hq := terminateChildren_terminates p
  have hproducer : (terminateChildren p).producer = p.producer := hq.child .producer
  have hconsumer : (terminateChildren p).consumer = p.consumer := hq.child .consumer
  constructor
  · rw [hq.received]
    exact h.received
  · rw [hq.aborted, hq.received]
    exact h.aborted
  · rw [hq.ioError]
    exact h.broken
  · intro stage
    rw [hq.child]
    exact h.errored stage
  · intro stage
    rw [hq.child]
    exact h.exited stage
  · intro stage
    rw [hq.child]
    exact h.silent stage
  · intro stage
    rw [hq.child]
    exact h.observed stage
  · rw [hq.result, hproducer, hconsumer, hq.ioError]
    exact h.answered
  · rw [hq.ending, hq.result, hq.received]
    exact h.ending

section Told

variable {events : List Event} {p q : Pipeline} {event : Event} {stage : StageName} {child : Child}

theorem Event.any_snoc (f : Event → Bool) : (events ++ [event]).any f = (events.any f || f event) := by simp

theorem Event.findSome_snoc {α : Type} (f : Event → Option α) : (events ++ [event]).findSome? f = (events.findSome? f).or (f event) := by
  rw [List.findSome?_append]
  congr 1
  cases h : f event <;> simp [List.findSome?, h]

/-- While an outcome stands both stages are observed. -/
theorem Told.open_of_unobserved (h : Told events p) (hresult : (p.child stage).result = none) : p.result = none := by
  cases hanswer : p.result with
  | none => rfl
  | some result =>
    obtain ⟨hproducer, hconsumer, -⟩ := h.answered result hanswer
    cases stage with
    | producer =>
      rw [show p.child .producer = p.producer from rfl, hproducer] at hresult
      cases hresult
    | consumer =>
      rw [show p.child .consumer = p.consumer from rfl, hconsumer] at hresult
      cases hresult

/-- A turn of one stage that is not observed yet. -/
theorem Told.setChild (h : Told events p) (hopen : p.ending = none) (hresult : (p.child stage).result = none)
    (hquiet : event.signal? = none ∧ event.breaks = false)
    (hothers : ∀ other, other ≠ stage → event.errs other = false ∧ event.exit? other = none)
    (herrored : child.spawnError.isSome = ((p.child stage).spawnError.isSome || event.errs stage))
    (hexited : child.spawnError = none → isRunning child = false →
      ((events.findSome? (Event.exit? stage)).or (event.exit? stage)) = some (child.exitCode, child.signalCode))
    (hsilent : isRunning child = true → isRunning (p.child stage) = true ∧ event.exit? stage = none)
    (hobserved : ∀ result, child.result = some result →
      result = ⟨child.exitCode, child.signalCode, child.spawnError⟩ ∧ isRunning child = false) :
    Told (events ++ [event]) (p.setChild stage child) := by
  have hbeside := setChild_beside p stage child
  have hanswer := h.open_of_unobserved hresult
  constructor
  · rw [hbeside.received, Event.findSome_snoc, hquiet.1, Option.or_none]
    exact h.received
  · rw [hbeside.aborted, hbeside.received]
    exact h.aborted
  · rw [hbeside.ioError, Event.any_snoc, hquiet.2, Bool.or_false]
    exact h.broken
  · intro other
    rw [Event.any_snoc]
    by_cases hne : other = stage
    · subst hne
      rw [setChild_same, herrored, h.errored]
    · rw [setChild_other hne, (hothers other hne).1, Bool.or_false]
      exact h.errored other
  · intro other
    rw [Event.findSome_snoc]
    by_cases hne : other = stage
    · subst hne
      rw [setChild_same]
      exact hexited
    · rw [setChild_other hne, (hothers other hne).2, Option.or_none]
      exact h.exited other
  · intro other hrunning
    rw [Event.findSome_snoc]
    by_cases hne : other = stage
    · subst hne
      rw [setChild_same] at hrunning
      obtain ⟨hbefore, hnone⟩ := hsilent hrunning
      rw [h.silent other hbefore, hnone]
      rfl
    · rw [setChild_other hne] at hrunning
      rw [h.silent other hrunning, (hothers other hne).2]
      rfl
  · intro other
    by_cases hne : other = stage
    · subst hne
      rw [setChild_same]
      exact hobserved
    · rw [setChild_other hne]
      exact h.observed other
  · intro result hsome
    rw [hbeside.result, hanswer] at hsome
    cases hsome
  · intro ending hsome
    rw [hbeside.ending, hopen] at hsome
    cases hsome

/-- A turn that leaves the stages as they are. -/
theorem Told.flags (h : Told events p) (hproducer : q.producer = p.producer) (hconsumer : q.consumer = p.consumer)
    (hquiet : ∀ stage, event.errs stage = false ∧ event.exit? stage = none)
    (hreceived : q.receivedSignal = p.receivedSignal.or event.signal?) (haborted : q.aborted = q.receivedSignal.isSome)
    (hbroken : q.ioError.isSome = (p.ioError.isSome || event.breaks))
    (hanswered : ∀ result, q.result = some result → q.producer.result = some result.producer ∧ q.consumer.result = some result.consumer ∧
      result.exitCode = resolvePipelineExitCode result.producer result.consumer q.ioError)
    (hending : ∀ ending, q.ending = some ending → ∃ result, q.result = some result ∧
      ending = q.receivedSignal.elim (.returned result.exitCode) .raised) : Told (events ++ [event]) q := by
  have hchild : ∀ stage, q.child stage = p.child stage := by
    intro stage
    cases stage with
    | producer => exact hproducer
    | consumer => exact hconsumer
  refine ⟨?_, haborted, ?_, fun stage => ?_, fun stage => ?_, fun stage => ?_, fun stage => ?_, hanswered, hending⟩
  · rw [hreceived, Event.findSome_snoc, h.received]
  · rw [hbroken, Event.any_snoc, h.broken]
  · rw [hchild, Event.any_snoc, (hquiet stage).1, Bool.or_false]
    exact h.errored stage
  · rw [hchild, Event.findSome_snoc, (hquiet stage).2, Option.or_none]
    exact h.exited stage
  · rw [hchild, Event.findSome_snoc, (hquiet stage).2, Option.or_none]
    exact h.silent stage
  · rw [hchild]
    exact h.observed stage

theorem Told.step (h : Told events p) (hstep : advance p event = some q) : Told (events ++ [event]) q := by
  unfold advance at hstep
  split at hstep
  · cases hstep
  rename_i hopen
  have hopen : p.ending = none := by simpa using hopen
  have hneither : ∀ ending, p.ending = some ending → ∃ result, p.result = some result ∧
      ending = p.receivedSignal.elim (.returned result.exitCode) .raised := h.ending
  cases event with
  | errored stage error exitCode =>
    dsimp only at hstep
    split at hstep
    · cases hstep
    · rename_i hresult
      cases hstep
      refine Told.terminate (h.setChild hopen (by simpa using hresult) ⟨rfl, rfl⟩ (fun other hne => ⟨?_, rfl⟩) ?_ ?_ ?_ ?_)
      · simpa [Event.errs] using fun heq => hne heq.symm
      · simp [Event.errs]
      · exact fun hnone => by cases hnone
      · intro hrunning
        refine ⟨?_, rfl⟩
        by_cases hchild : isRunning (p.child stage) = true
        · exact hchild
        · rw [if_neg hchild] at hrunning
          exact hrunning
      · intro result hsome
        rw [hsome] at hresult
        exact absurd rfl hresult
  | exited stage exitCode signal =>
    dsimp only at hstep
    split at hstep
    · cases hstep
    · rename_i hguard
      have hrunning : isRunning (p.child stage) = true := by simpa using fun hended => hguard (.inl hended)
      have hended : isRunning { p.child stage with exitCode := exitCode, signalCode := signal } = false := by
        cases exitCode with
        | some code => rfl
        | none =>
          cases signal with
          | some name => rfl
          | none => exact absurd (.inr ⟨rfl, rfl⟩) hguard
      have hresult : (p.child stage).result = none := by
        cases hsome : (p.child stage).result with
        | none => rfl
        | some result =>
          rw [(h.observed stage result hsome).2] at hrunning
          cases hrunning
      have htold : Told (events ++ [.exited stage exitCode signal])
          (p.setChild stage { p.child stage with exitCode := exitCode, signalCode := signal }) := by
        refine h.setChild hopen hresult ⟨rfl, rfl⟩ (fun other hne => ⟨rfl, ?_⟩) ?_ ?_ ?_ ?_
        · exact if_neg fun heq => hne heq.symm
        · simp [Event.errs]
        · intro _ _
          rw [h.silent stage hrunning]
          exact if_pos rfl
        · intro hruns
          rw [hended] at hruns
          cases hruns
        · intro result hsome
          have hsome : (p.child stage).result = some result := hsome
          rw [hresult] at hsome
          cases hsome
      cases hstep
      split
      · exact htold.terminate
      · exact htold
  | closed stage =>
    dsimp only at hstep
    split at hstep
    · cases hstep
    · rename_i hguard
      have hended : isRunning (p.child stage) = false := by simpa using fun hrunning => hguard (.inl hrunning)
      have hresult : (p.child stage).result = none := by simpa using fun hsome => hguard (.inr hsome)
      cases hstep
      refine h.setChild hopen hresult ⟨rfl, rfl⟩ (fun other hne => ⟨rfl, rfl⟩) ?_ ?_ ?_ ?_
      · simp [Event.errs]
      · intro hnone _
        show (events.findSome? (Event.exit? stage)).or none = _
        rw [Option.or_none]
        exact h.exited stage hnone hended
      · intro hruns
        have hruns : isRunning (p.child stage) = true := hruns
        rw [hended] at hruns
        cases hruns
      · intro result hsome
        cases hsome
        exact ⟨rfl, hended⟩
  | ended =>
    cases hstep
    exact h.flags rfl rfl (fun _ => ⟨rfl, rfl⟩) (Option.or_none).symm h.aborted (Bool.or_false _).symm h.answered h.ending
  | streamFailed error =>
    dsimp only at hstep
    split at hstep
    · cases hstep
    · rename_i hresult
      have hresult : p.result = none := by simpa using hresult
      cases hstep
      unfold recordIoError
      split
      · rename_i hpipe
        refine h.flags rfl rfl (fun _ => ⟨rfl, rfl⟩) (Option.or_none).symm h.aborted ?_ h.answered h.ending
        simp [Event.breaks, hpipe]
      · rename_i hpipe
        refine Told.terminate (h.flags rfl rfl (fun _ => ⟨rfl, rfl⟩) (Option.or_none).symm h.aborted ?_ (fun result hsome => ?_) h.ending)
        · simp [Event.breaks, hpipe]
        · have hsome : p.result = some result := hsome
          rw [hresult] at hsome
          cases hsome
  | graceElapsed =>
    dsimp only at hstep
    split at hstep
    · cases hstep
      exact h.flags rfl rfl (fun _ => ⟨rfl, rfl⟩) (Option.or_none).symm h.aborted (Bool.or_false _).symm h.answered h.ending
    · cases hstep
  | received signal =>
    have htold : Told (events ++ [.received signal])
        { p with receivedSignal := some (p.receivedSignal.getD signal), aborted := true, listening := false } := by
      refine h.flags rfl rfl (fun _ => ⟨rfl, rfl⟩) ?_ rfl (Bool.or_false _).symm h.answered (fun ending hsome => ?_)
      · show some (p.receivedSignal.getD signal) = p.receivedSignal.or (some signal)
        cases p.receivedSignal <;> rfl
      · have hsome : p.ending = some ending := hsome
        rw [hopen] at hsome
        cases hsome
    cases hstep
    split
    · exact htold.terminate
    · exact htold
  | resumed =>
    dsimp only at hstep
    split at hstep
    · rename_i producer consumer hproducer hconsumer hnone
      cases hstep
      refine h.flags rfl rfl (fun _ => ⟨rfl, rfl⟩) (Option.or_none).symm h.aborted (Bool.or_false _).symm (fun result hsome => ?_)
        (fun ending hsome => ?_)
      · cases hsome
        exact ⟨hproducer, hconsumer, rfl⟩
      · have hsome : p.ending = some ending := hsome
        rw [hopen] at hsome
        cases hsome
    · cases hstep
  | concluded =>
    obtain ⟨result, hresult, rfl⟩ := Option.map_eq_some_iff.mp hstep
    refine h.flags rfl rfl (fun _ => ⟨rfl, rfl⟩) (Option.or_none).symm h.aborted (Bool.or_false _).symm h.answered (fun ending hsome => ?_)
    cases hsome
    refine ⟨result, hresult, ?_⟩
    cases p.receivedSignal <;> rfl

end Told

/-! ## Why the stages are stopped -/

/-- After `before`, the event is a reason to stop the stages. -/
def Prompts (before : List Event) : Event → Prop
  | .received _ => True
  | .errored _ _ _ => True
  | .streamFailed error => error.code ≠ some "EPIPE"
  -- nobody reads what the producer, which has not exited, still writes
  | .exited .consumer _ _ => before.findSome? (Event.exit? .producer) = none ∧ Event.ended ∉ before
  | _ => False

/-- One of the events was a reason when it came. -/
def Cause (events : List Event) : Prop := ∃ before event after, events = before ++ event :: after ∧ Prompts before event

theorem cause_snoc {events : List Event} {event : Event} : Cause (events ++ [event]) ↔ Cause events ∨ Prompts events event := by
  constructor
  · rintro ⟨before, cause, after, heq, hprompts⟩
    rcases List.eq_nil_or_concat after with rfl | ⟨rest, last, rfl⟩
    · obtain ⟨rfl, hlast⟩ := List.append_inj' heq rfl
      cases hlast
      exact .inr hprompts
    · rw [List.concat_eq_append, ← List.cons_append, ← List.append_assoc] at heq
      exact .inl ⟨before, cause, rest, (List.append_inj' heq rfl).1, hprompts⟩
  · rintro (⟨before, cause, after, rfl, hprompts⟩ | hprompts)
    · exact ⟨before, cause, after ++ [event], by simp, hprompts⟩
    · exact ⟨events, event, [], rfl, hprompts⟩

/-- Termination has begun where there was cause. -/
structure Caused (events : List Event) (p : Pipeline) : Prop where
  readable : p.readableEnded = true ↔ Event.ended ∈ events
  listens : p.listening = true ∨ p.terminationStarted = true ∨ p.result.isSome = true
  prompted : p.terminationStarted = true → Cause events
  heeded : Cause events → p.terminationStarted = true ∨ p.result.isSome = true

section Caused

variable {events : List Event} {p q : Pipeline} {event : Event}

theorem not_ended_mem_snoc (h : event ≠ .ended) : Event.ended ∈ events ++ [event] ↔ Event.ended ∈ events := by
  simp [Ne.symm h]

/-- A turn that begins the termination for its own reason. -/
theorem Caused.begin (hreadable : q.readableEnded = true ↔ Event.ended ∈ events ++ [event]) (hprompts : Prompts events event) :
    Caused (events ++ [event]) (terminateChildren q) := by
  have hq := terminateChildren_terminates q
  refine ⟨?_, .inr (.inl hq.started), fun _ => cause_snoc.mpr (.inr hprompts), fun _ => .inl hq.started⟩
  rw [hq.readableEnded]
  exact hreadable

/-- A turn that is no reason, or comes when all is over. -/
theorem Caused.keep (h : Caused events p) (hreadable : q.readableEnded = true ↔ Event.ended ∈ events ++ [event])
    (hlistens : q.listening = p.listening ∨ q.terminationStarted = true ∨ q.result.isSome = true)
    (hstarted : q.terminationStarted = p.terminationStarted) (hresult : p.result.isSome = true → q.result.isSome = true)
    (hprompts : Prompts events event → p.terminationStarted = true ∨ p.result.isSome = true) : Caused (events ++ [event]) q := by
  have hover : p.terminationStarted = true ∨ p.result.isSome = true → q.terminationStarted = true ∨ q.result.isSome = true := by
    rintro (hbegun | hdone)
    · exact .inl (hstarted.trans hbegun)
    · exact .inr (hresult hdone)
  refine ⟨hreadable, ?_, fun hbegun => cause_snoc.mpr (.inl (h.prompted (hstarted ▸ hbegun))), fun hcause => ?_⟩
  · rcases hlistens with hsame | hrest
    · rcases h.listens with hlistens | hrest
      · exact .inl (hsame.trans hlistens)
      · exact .inr (hover hrest)
    · exact .inr hrest
  · rcases cause_snoc.mp hcause with hearlier | hnow
    · exact hover (h.heeded hearlier)
    · exact hover (hprompts hnow)

theorem Caused.step (htold : Told events p) (h : Caused events p) (hstep : advance p event = some q) : Caused (events ++ [event]) q := by
  unfold advance at hstep
  split at hstep
  · cases hstep
  cases event with
  | errored stage error exitCode =>
    dsimp only at hstep
    split at hstep
    · cases hstep
    · cases hstep
      refine .begin ?_ trivial
      rw [(setChild_beside _ _ _).readableEnded, not_ended_mem_snoc (fun heq => by cases heq)]
      exact h.readable
  | exited stage exitCode signal =>
    dsimp only at hstep
    split at hstep
    · cases hstep
    · cases hstep
      have hbeside := setChild_beside p stage { p.child stage with exitCode := exitCode, signalCode := signal }
      have hreadable : (p.setChild stage { p.child stage with exitCode := exitCode, signalCode := signal }).readableEnded = true ↔
          Event.ended ∈ events ++ [.exited stage exitCode signal] := by
        rw [hbeside.readableEnded, not_ended_mem_snoc (fun heq => by cases heq)]
        exact h.readable
      cases stage with
      | producer => exact h.keep hreadable (.inl rfl) rfl id fun hprompts => hprompts.elim
      | consumer =>
        by_cases hleft : isRunning p.producer = true ∧ p.readableEnded = false
        · rw [if_pos (by exact ⟨rfl, hleft⟩)]
          refine .begin hreadable ⟨htold.silent .producer hleft.1, fun hended => ?_⟩
          rw [h.readable.mpr hended] at hleft
          cases hleft.2
        · rw [if_neg (by exact fun hguard => hleft hguard.2)]
          refine h.keep hreadable (.inl rfl) rfl id fun ⟨hsilent, hopen⟩ => h.heeded ?_
          -- the producer is not running, and has not exited: it was not spawned
          have hunread : p.readableEnded = false := by
            cases hread : p.readableEnded with
            | false => rfl
            | true => exact absurd (h.readable.mp hread) hopen
          have hended : isRunning p.producer = false := by simpa using fun hruns => hleft ⟨hruns, hunread⟩
          have herrs : events.any (Event.errs .producer) = true := by
            rw [← htold.errored .producer]
            cases hspawn : (p.child .producer).spawnError with
            | some error => rfl
            | none =>
              rw [htold.exited .producer hspawn hended] at hsilent
              cases hsilent
          obtain ⟨event, hmem, herr⟩ := List.any_eq_true.mp herrs
          obtain ⟨before, after, rfl⟩ := List.append_of_mem hmem
          refine ⟨before, event, after, rfl, ?_⟩
          cases event with
          | errored => trivial
          | _ => cases herr
  | closed stage =>
    dsimp only at hstep
    split at hstep
    · cases hstep
    · cases hstep
      have hbeside := setChild_beside p stage { p.child stage with
        result := some ⟨(p.child stage).exitCode, (p.child stage).signalCode, (p.child stage).spawnError⟩ }
      refine h.keep ?_ (.inl hbeside.listening) hbeside.started (fun hdone => ?_) fun hprompts => hprompts.elim
      · rw [hbeside.readableEnded, not_ended_mem_snoc (fun heq => by cases heq)]
        exact h.readable
      · rw [hbeside.result]
        exact hdone
  | ended =>
    cases hstep
    refine h.keep ?_ (.inl rfl) rfl id fun hprompts => hprompts.elim
    simp
  | streamFailed error =>
    dsimp only at hstep
    have hreadable : p.readableEnded = true ↔ Event.ended ∈ events ++ [.streamFailed error] := by
      rw [not_ended_mem_snoc (fun heq => by cases heq)]
      exact h.readable
    split at hstep
    · cases hstep
    · cases hstep
      unfold recordIoError
      split
      · rename_i hpipe
        exact h.keep hreadable (.inl rfl) rfl id fun hprompts => absurd hpipe hprompts
      · rename_i hpipe
        exact .begin hreadable hpipe
  | graceElapsed =>
    dsimp only at hstep
    split at hstep
    · cases hstep
      refine h.keep ?_ (.inl rfl) rfl id fun hprompts => hprompts.elim
      rw [not_ended_mem_snoc (fun heq => by cases heq)]
      exact h.readable
    · cases hstep
  | received signal =>
    have hreadable : p.readableEnded = true ↔ Event.ended ∈ events ++ [.received signal] := by
      rw [not_ended_mem_snoc (fun heq => by cases heq)]
      exact h.readable
    cases hstep
    by_cases hlistening : p.listening = true
    · rw [if_pos hlistening]
      exact .begin hreadable trivial
    · rw [if_neg hlistening]
      have hrest := h.listens.resolve_left hlistening
      exact h.keep hreadable (.inr hrest) rfl id fun _ => hrest
  | resumed =>
    dsimp only at hstep
    split at hstep
    · cases hstep
      refine h.keep ?_ (.inr (.inr rfl)) rfl (fun _ => rfl) fun hprompts => hprompts.elim
      rw [not_ended_mem_snoc (fun heq => by cases heq)]
      exact h.readable
    · cases hstep
  | concluded =>
    obtain ⟨result, hresult, rfl⟩ := Option.map_eq_some_iff.mp hstep
    refine h.keep ?_ (.inl rfl) rfl id fun hprompts => hprompts.elim
    rw [not_ended_mem_snoc (fun heq => by cases heq)]
    exact h.readable

end Caused

/-! ## Every run -/

section Runs

variable {events : List Event} {p : Pipeline}

theorem started_sent : Sent started :=
  ⟨fun _ => ⟨fun _ => rfl, rfl⟩, fun _ => List.nil_prefix, fun _ _ => List.nil_prefix, (fun h => by cases h), fun h => by cases h⟩

theorem started_told : Told [] started := by
  refine ⟨rfl, rfl, rfl, fun stage => ?_, fun stage _ hended => ?_, fun _ _ => rfl, fun stage result hsome => ?_, (fun _ h => by cases h),
    fun _ h => by cases h⟩
  · cases stage <;> rfl
  · cases stage <;> cases hended
  · cases stage <;> cases hsome

theorem started_caused : Caused [] started := by
  refine ⟨by simp [started], .inl rfl, (fun h => by cases h), ?_⟩
  rintro ⟨before, event, after, heq, -⟩
  simp at heq

theorem run_sent (h : Run supervising events p) : Sent p := by
  refine Run.invariant (I := Sent) (fun p hinit => ?_) (fun _ _ _ ht hstep => ht.step hstep) h
  rw [show p = started from hinit]
  exact started_sent

theorem run_told (h : Run supervising events p) : Told events p := by
  refine Run.traceInvariant (fun p hinit => ?_) (fun _ _ _ _ _ ht hstep => Told.step ht hstep) h
  rw [show p = started from hinit]
  exact started_told

theorem run_caused (h : Run supervising events p) : Caused events p := by
  refine Run.traceInvariant (fun p hinit => ?_) (fun _ _ _ _ hrun ht hstep => Caused.step (run_told hrun) ht hstep) h
  rw [show p = started from hinit]
  exact started_caused

/-- A stage is asked to stop, and is killed once the grace has passed, each once at most: only when
    there was cause, always while it runs and there is, and never after it has ended. -/
theorem stages_signalled (h : Run supervising events p) (stage : StageName) :
    given p stage <+: [.sigterm, .sigkill] ∧ (given p stage ≠ [] → Cause events) ∧
      (Cause events → p.result = none → isRunning (p.child stage) = true →
        SentSignal.sigterm ∈ given p stage ∧ (p.forceKillTimer = false → given p stage = [.sigterm, .sigkill])) ∧
      (isRunning (p.child stage) = false → ∀ (after : List Event) (q : Pipeline), Steps supervising p after q →
        isRunning (q.child stage) = false ∧ given q stage = given p stage) := by
  have hsent := run_sent h
  have hcaused := run_caused h
  refine ⟨hsent.once stage, fun hgiven => ?_, fun hcause hopen hruns => ?_, fun hended after q hsteps => ?_⟩
  · refine hcaused.prompted ?_
    cases hstarted : p.terminationStarted with
    | true => rfl
    | false => exact absurd ((hsent.untouched hstarted).1 stage) hgiven
  · have hstarted : p.terminationStarted = true := by
      rcases hcaused.heeded hcause with hstarted | hdone
      · exact hstarted
      · rw [hopen] at hdone
        cases hdone
    exact ⟨hsent.asked hstarted stage hruns, fun htimer => hsent.killed hstarted htimer hopen stage hruns⟩
  · refine Steps.stable (I := fun t => isRunning (t.child stage) = false ∧ given t stage = given p stage) (fun t event u ht hstep => ?_) hsteps
      ⟨hended, rfl⟩
    obtain ⟨hended, hsame⟩ := ended_step hstep ht.1
    exact ⟨hended, hsame.trans ht.2⟩

/-- The bridge fails; the orchestrator, whose output nobody reads, does not stop when it is asked to. -/
def sampleEvents : List Event :=
  [.exited .consumer (some 3) none, .streamFailed ⟨some "EPIPE", "write EPIPE"⟩, .closed .consumer, .graceElapsed,
    .exited .producer none (some "SIGKILL"), .closed .producer, .resumed, .concluded]

theorem stages_signalled_killed : ∃ p : Pipeline, given p .producer = [.sigterm, .sigkill] ∧ given p .consumer = [] ∧
    Cause (sampleEvents.take 4) := by
  have hgiven : ((follow advance started (sampleEvents.take 4)).map fun p => (given p .producer, given p .consumer)) =
      some ([.sigterm, .sigkill], []) := by
    decide
  obtain ⟨p, hfollow, hgiven⟩ := Option.map_eq_some_iff.mp hgiven
  obtain ⟨hproducer, hconsumer⟩ := Prod.mk.inj hgiven
  have hsteps : Steps supervising started (sampleEvents.take 4) p := follow_steps id hfollow
  have hcause := (stages_signalled ⟨started, rfl, hsteps⟩ .producer).2.1
  refine ⟨p, hproducer, hconsumer, hcause ?_⟩
  rw [hproducer]
  exact List.cons_ne_nil _ _

/-- What a stage that was spawned and has ended leaves in the result. -/
theorem Told.exit_of_observed {stage : StageName} {result : PipelineStageResult} (h : Told events p)
    (hresult : (p.child stage).result = some result) : isRunning (p.child stage) = false ∧
      result.spawnError.isSome = events.any (Event.errs stage) ∧ (result.exitCode = none → result.signal.isSome = true) ∧
      (result.spawnError = none → events.findSome? (Event.exit? stage) = some (result.exitCode, result.signal)) := by
  obtain ⟨rfl, hended⟩ := h.observed stage result hresult
  refine ⟨hended, h.errored stage, fun hcode => ?_, fun hspawn => h.exited stage hspawn hended⟩
  have hcode : (p.child stage).exitCode = none := hcode
  simpa [isRunning, hcode] using hended

/-- Such a stage counts as a success exactly when it never failed and exited with zero. -/
theorem Told.succeeded_iff {stage : StageName} {result : PipelineStageResult} (h : Told events p)
    (hresult : (p.child stage).result = some result) :
    (result.spawnError = none ∧ result.signal = none ∧ result.exitCode.getD 0 = 0) ↔
      events.any (Event.errs stage) = false ∧ events.findSome? (Event.exit? stage) = some (some 0, none) := by
  obtain ⟨-, herrs, hcoded, hexit⟩ := h.exit_of_observed hresult
  rw [← herrs]
  constructor
  · rintro ⟨hspawn, hquiet, hnought⟩
    refine ⟨by rw [hspawn]; rfl, ?_⟩
    rw [hexit hspawn, hquiet]
    -- a stage that ended without a signal has a code
    cases hexitCode : result.exitCode with
    | some exitCode =>
      rw [hexitCode] at hnought
      rw [show exitCode = 0 from hnought]
    | none =>
      have hsome := hcoded hexitCode
      rw [hquiet] at hsome
      cases hsome
  · rintro ⟨hspawn, hfound⟩
    have hspawn : result.spawnError = none := by simpa using hspawn
    rw [hexit hspawn] at hfound
    cases hexitCode : result.exitCode <;> simp_all

/-- Zero says that nothing failed and that both stages returned it. -/
theorem resolvePipelineExitCode_eq_zero {producer consumer : PipelineStageResult} {ioError : Option Thrown} :
    resolvePipelineExitCode producer consumer ioError = 0 ↔ ioError = none ∧
      (producer.spawnError = none ∧ producer.signal = none ∧ producer.exitCode.getD 0 = 0) ∧
      (consumer.spawnError = none ∧ consumer.signal = none ∧ consumer.exitCode.getD 0 = 0) := by
  unfold resolvePipelineExitCode
  by_cases hfailed : producer.spawnError.isSome = true ∨ consumer.spawnError.isSome = true ∨ ioError.isSome = true
  · rw [if_pos hfailed]
    refine ⟨fun h => absurd h (by decide), ?_⟩
    rintro ⟨hio, ⟨hproducer, -⟩, hconsumer, -⟩
    simp [hio, hproducer, hconsumer] at hfailed
  · rw [if_neg hfailed]
    have hsound : producer.spawnError = none ∧ consumer.spawnError = none ∧ ioError = none := by simpa using hfailed
    by_cases hsignalled : producer.signal.isSome = true ∨ consumer.signal.isSome = true
    · rw [if_pos hsignalled]
      refine ⟨fun h => absurd h (by decide), ?_⟩
      rintro ⟨-, ⟨-, hproducer, -⟩, -, hconsumer, -⟩
      simp [hproducer, hconsumer] at hsignalled
    · rw [if_neg hsignalled]
      have hquiet : producer.signal = none ∧ consumer.signal = none := by simpa using hsignalled
      simp only [hsound, hquiet, true_and]
      by_cases hconsumer : consumer.exitCode.getD 0 = 0
      · by_cases hproducer : producer.exitCode.getD 0 = 0 <;> simp [hconsumer, hproducer]
      · simp [hconsumer]

/-- Another code than zero and one is a stage's own. -/
theorem resolvePipelineExitCode_cases {producer consumer : PipelineStageResult} {ioError : Option Thrown} {code : Int}
    (h : resolvePipelineExitCode producer consumer ioError = code) : code = 0 ∨ code = 1 ∨
      (consumer.spawnError = none ∧ consumer.signal = none ∧ consumer.exitCode = some code) ∨
      (producer.spawnError = none ∧ producer.signal = none ∧ producer.exitCode = some code) := by
  unfold resolvePipelineExitCode at h
  split at h
  · exact .inr (.inl h.symm)
  rename_i hsound
  split at h
  · exact .inr (.inl h.symm)
  rename_i hquiet
  have hsound : producer.spawnError = none ∧ consumer.spawnError = none ∧ ioError = none := by simpa using hsound
  have hquiet : producer.signal = none ∧ consumer.signal = none := by simpa using hquiet
  -- a code that is not zero was set
  have hset : ∀ exitCode : Option Int, exitCode.getD 0 ≠ 0 → exitCode.getD 0 = code → exitCode = some code := by
    intro exitCode hne heq
    cases exitCode with
    | some exitCode => exact congrArg some heq
    | none => exact absurd rfl hne
  split at h
  · rename_i hconsumer
    exact .inr (.inr (.inl ⟨hsound.2.1, hquiet.2, hset _ hconsumer h⟩))
  · split at h
    · rename_i hproducer
      exact .inr (.inr (.inr ⟨hsound.1, hquiet.1, hset _ hproducer h⟩))
    · exact .inl h.symm

/-- The supervisor outlives its stages, and dies of the first signal it was sent. Otherwise it
    returns zero exactly when each stage exited with zero and nothing failed, and one or a stage's
    own code when something did. -/
theorem pipeline_verdict (h : Run supervising events p) {ending : Ending} (hending : p.ending = some ending) :
    (∀ stage, isRunning (p.child stage) = false) ∧
      (∀ signal, events.findSome? Event.signal? = some signal → ending = .raised signal) ∧
      (events.findSome? Event.signal? = none → ∃ code, ending = .returned code ∧
        (code = 0 ↔ events.any Event.breaks = false ∧
          ∀ stage, events.any (Event.errs stage) = false ∧ events.findSome? (Event.exit? stage) = some (some 0, none)) ∧
        (code = 0 ∨ code = 1 ∨ ∃ stage, events.findSome? (Event.exit? stage) = some (some code, none))) := by
  have htold := run_told h
  obtain ⟨result, hresult, hverdict⟩ := htold.ending ending hending
  obtain ⟨hproducer, hconsumer, hcode⟩ := htold.answered result hresult
  have hproducer : (p.child .producer).result = some result.producer := hproducer
  have hconsumer : (p.child .consumer).result = some result.consumer := hconsumer
  obtain ⟨hdone, -, -, hexit⟩ := htold.exit_of_observed hproducer
  obtain ⟨hdone', -, -, hexit'⟩ := htold.exit_of_observed hconsumer
  refine ⟨fun stage => ?_, fun signal hsignal => ?_, fun hsignal => ⟨result.exitCode, ?_, ?_, ?_⟩⟩
  · cases stage with
    | producer => exact hdone
    | consumer => exact hdone'
  · rw [hverdict, htold.received, hsignal]
    rfl
  · rw [hverdict, htold.received, hsignal]
    rfl
  · rw [hcode, resolvePipelineExitCode_eq_zero, ← htold.broken]
    rw [htold.succeeded_iff hproducer, htold.succeeded_iff hconsumer]
    refine and_congr (by simp) ⟨fun ⟨hone, hother⟩ stage => ?_, fun hall => ⟨hall .producer, hall .consumer⟩⟩
    cases stage with
    | producer => exact hone
    | consumer => exact hother
  · rcases resolvePipelineExitCode_cases hcode.symm with hnought | hone | ⟨hspawn, hquiet, hown⟩ | ⟨hspawn, hquiet, hown⟩
    · exact .inl hnought
    · exact .inr (.inl hone)
    · exact .inr (.inr ⟨.consumer, by rw [hexit' hspawn, hquiet, hown]⟩)
    · exact .inr (.inr ⟨.producer, by rw [hexit hspawn, hquiet, hown]⟩)

theorem pipeline_verdict_killed : ∃ p : Pipeline, p.ending = some (.returned 1) ∧ ∀ stage, isRunning (p.child stage) = false := by
  have hending : ((follow advance started sampleEvents).bind fun p => p.ending) = some (.returned 1) := by
    decide
  obtain ⟨p, hfollow, hending⟩ := Option.bind_eq_some_iff.mp hending
  have hsteps : Steps supervising started sampleEvents p := follow_steps id hfollow
  exact ⟨p, hending, (pipeline_verdict ⟨started, rfl, hsteps⟩ hending).1⟩

end Runs

end GitCommitsPush.Runtime.Supervisor
