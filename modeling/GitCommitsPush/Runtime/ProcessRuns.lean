/-
  GitCommitsPush.Runtime.ProcessRuns — what a call of `runProcess` has seen when it settles.

  Over every order of the events:
  - `result_captured`: an output of the result is the first bytes of what the child wrote, all of
    them unless the call was stopped; a limited stream is one that went over.
  - `signals_once`: SIGTERM, and SIGKILL once the grace has passed, while the child is there.
  - `first_wins`: the reason is that of the first request to stop, and nothing that failed is lost.
-/

import GitCommitsPush.Lib.Computed
import GitCommitsPush.Runtime.RunProcess

namespace GitCommitsPush.Runtime

open GitCommitsPush.Lib.Computed
open GitCommitsPush.Lib.Runs

/-! ## What the helpers leave alone -/

/-- Neither the monitors nor what the call was started with, nor how it ends. -/
structure Frame (call call' : Call) : Prop where
  stdout : call'.stdout = call.stdout
  stderr : call'.stderr = call.stderr
  settings : call'.settings = call.settings
  pid : call'.pid = call.pid
  completion : call'.completion = call.completion
  outcome : call'.outcome = call.outcome
  stdinSettled : call'.stdinSettled = call.stdinSettled

theorem Frame.monitor {call call' : Call} (h : Frame call call') (stream : ProcessOutputStream) : call'.monitor stream = call.monitor stream := by
  cases stream with
  | stdout => exact h.stdout
  | stderr => exact h.stderr

theorem signalProcessTree_outcome (call : Call) (signal : SentSignal) : (signalProcessTree call signal).outcome = call.outcome := by
  unfold signalProcessTree
  split <;> rfl

theorem beginTermination_frame (call : Call) : Frame call (beginTermination call) := by
  unfold beginTermination signalProcessTree
  split
  · exact ⟨rfl, rfl, rfl, rfl, rfl, rfl, rfl⟩
  · split <;> exact ⟨rfl, rfl, rfl, rfl, rfl, rfl, rfl⟩

theorem beginTermination_request (call : Call) : (beginTermination call).requestedTermination = call.requestedTermination ∧
    (beginTermination call).limitedStream = call.limitedStream ∧ (beginTermination call).failure = call.failure := by
  unfold beginTermination signalProcessTree
  split
  · exact ⟨rfl, rfl, rfl⟩
  · split <;> exact ⟨rfl, rfl, rfl⟩

theorem requestTermination_frame (reason : ProcessTerminationReason) (stream : Option ProcessOutputStream) (call : Call) :
    Frame call (requestTermination reason stream call) := by
  unfold requestTermination
  by_cases hrequested : call.requestedTermination.isSome = true
  · rw [if_pos hrequested]
    exact ⟨rfl, rfl, rfl, rfl, rfl, rfl, rfl⟩
  · rw [if_neg hrequested]
    split
    · exact ⟨rfl, rfl, rfl, rfl, rfl, rfl, rfl⟩
    · have hframe := beginTermination_frame { call with requestedTermination := some reason, limitedStream := stream }
      exact ⟨hframe.stdout, hframe.stderr, hframe.settings, hframe.pid, hframe.completion, hframe.outcome, hframe.stdinSettled⟩

theorem requestTermination_failure (reason : ProcessTerminationReason) (stream : Option ProcessOutputStream) (call : Call) :
    (requestTermination reason stream call).failure = call.failure := by
  unfold requestTermination
  split
  · rfl
  · split
    · rfl
    · exact (beginTermination_request _).2.2

/-- The first request is the one that stays; one that comes when the child is gone is not taken,
    unless an output has gone over. -/
theorem requestTermination_cases (reason : ProcessTerminationReason) (stream : Option ProcessOutputStream) (call : Call) :
    (call.requestedTermination = none ∧ (call.completion = none ∨ reason = .outputLimit) ∧
        (requestTermination reason stream call).requestedTermination = some reason ∧
        (requestTermination reason stream call).limitedStream = stream) ∨
      ((requestTermination reason stream call).requestedTermination = call.requestedTermination ∧
        (requestTermination reason stream call).limitedStream = call.limitedStream ∧
        (reason = .outputLimit → call.requestedTermination.isSome = true)) := by
  unfold requestTermination
  by_cases hrequested : call.requestedTermination.isSome = true
  · rw [if_pos hrequested]
    exact .inr ⟨rfl, rfl, fun _ => hrequested⟩
  · rw [if_neg hrequested]
    by_cases hlate : call.processFinished = true ∧ reason ≠ .outputLimit
    · rw [if_pos hlate]
      exact .inr ⟨rfl, rfl, fun h => absurd h hlate.2⟩
    · rw [if_neg hlate]
      have hkept := beginTermination_request { call with requestedTermination := some reason, limitedStream := stream }
      refine .inl ⟨by simpa using hrequested, ?_, hkept.1, hkept.2.1⟩
      by_cases hreason : reason = .outputLimit
      · exact .inr hreason
      · left
        have hfinished : call.processFinished = false := by simpa using fun h => hlate ⟨h, hreason⟩
        simpa [Call.processFinished] using hfinished

theorem recordIoFailure_frame (phase : ProcessExecutionErrorPhase) (error : Thrown) (call : Call) : Frame call (recordIoFailure phase error call) := by
  unfold recordIoFailure
  split
  · exact ⟨rfl, rfl, rfl, rfl, rfl, rfl, rfl⟩
  · have hframe := beginTermination_frame { call with failure := some (phase, error) }
    exact ⟨hframe.stdout, hframe.stderr, hframe.settings, hframe.pid, hframe.completion, hframe.outcome, hframe.stdinSettled⟩

theorem recordIoFailure_request (phase : ProcessExecutionErrorPhase) (error : Thrown) (call : Call) :
    (recordIoFailure phase error call).requestedTermination = call.requestedTermination ∧
      (recordIoFailure phase error call).limitedStream = call.limitedStream ∧
      (recordIoFailure phase error call).failure = some (call.failure.getD (phase, error)) := by
  unfold recordIoFailure
  by_cases hfailed : call.failure.isSome = true
  · rw [if_pos hfailed]
    obtain ⟨failure, hfailure⟩ := Option.isSome_iff_exists.mp hfailed
    simp [hfailure]
  · rw [if_neg hfailed]
    have hnone : call.failure = none := by simpa using hfailed
    have hkept := beginTermination_request { call with failure := some (phase, error) }
    rw [hnone]
    exact hkept

@[simp] theorem setMonitor_same (call : Call) (stream : ProcessOutputStream) (monitor : Monitor) :
    (call.setMonitor stream monitor).monitor stream = monitor := by
  cases stream <;> rfl

theorem setMonitor_other (call : Call) {stream other : ProcessOutputStream} (monitor : Monitor) (h : other ≠ stream) :
    (call.setMonitor stream monitor).monitor other = call.monitor other := by
  cases stream <;> cases other <;> first | rfl | exact absurd rfl h

/-- Everything but the monitor. -/
structure Beside (call call' : Call) : Prop where
  settings : call'.settings = call.settings
  pid : call'.pid = call.pid
  completion : call'.completion = call.completion
  outcome : call'.outcome = call.outcome
  requested : call'.requestedTermination = call.requestedTermination
  limited : call'.limitedStream = call.limitedStream
  failure : call'.failure = call.failure
  started : call'.terminationStarted = call.terminationStarted
  timer : call'.forceKillTimer = call.forceKillTimer
  signals : call'.signals = call.signals

theorem setMonitor_beside (call : Call) (stream : ProcessOutputStream) (monitor : Monitor) : Beside call (call.setMonitor stream monitor) := by
  cases stream <;> exact ⟨rfl, rfl, rfl, rfl, rfl, rfl, rfl, rfl, rfl, rfl⟩

/-! ## The outputs -/

/-- What an event adds to an output of the child. -/
def Event.bytes (stream : ProcessOutputStream) : Event → List UInt8
  | .chunk other bytes => if other = stream then bytes else []
  | _ => []

/-- What the child wrote to an output. -/
def yielded (stream : ProcessOutputStream) (events : List Event) : List UInt8 := events.flatMap (Event.bytes stream)

theorem yielded_snoc (stream : ProcessOutputStream) (events : List Event) (event : Event) :
    yielded stream (events ++ [event]) = yielded stream events ++ event.bytes stream := by
  unfold yielded
  rw [List.flatMap_append, List.flatMap_singleton]

/-- `handled` is what the handler of the stream has returned from. -/
structure Captures (stream : ProcessOutputStream) (events : List Event) (call : Call) (handled : List UInt8) : Prop where
  captured : (call.monitor stream).captured = handled.take call.settings.maxCaptureBytes
  rest : ∃ rest, yielded stream events = handled ++ rest ∧ (∀ chunk, (call.monitor stream).pending = some chunk → rest = chunk) ∧
    ((call.monitor stream).pending = none → call.failure = none ∨ (call.monitor stream).settled = false → rest = [])
  idle : (call.monitor stream).settled = true → (call.monitor stream).pending = none
  beyond : call.settings.maxCaptureBytes < handled.length → call.requestedTermination.isSome = true
  limited : call.limitedStream = some stream → call.requestedTermination = some .outputLimit ∧ call.settings.maxCaptureBytes < handled.length

section Outputs

variable {stream : ProcessOutputStream} {events : List Event} {call call' : Call} {handled : List UInt8}

theorem Captures.snoc (h : Captures stream events call handled) (event : Event) (hbytes : event.bytes stream = []) :
    Captures stream (events ++ [event]) call handled := by
  obtain ⟨rest, hyielded, hpending, hidle⟩ := h.rest
  refine ⟨h.captured, ⟨rest, ?_, hpending, hidle⟩, h.idle, h.beyond, h.limited⟩
  rw [yielded_snoc, hbytes, List.append_nil, hyielded]

theorem Captures.congr (h : Captures stream events call handled) (hmonitor : call'.monitor stream = call.monitor stream)
    (hsettings : call'.settings = call.settings) (hfailure : call'.failure = none → call.failure = none)
    (hrequested : call'.requestedTermination = call.requestedTermination) (hlimited : call'.limitedStream = call.limitedStream) :
    Captures stream events call' handled := by
  obtain ⟨rest, hyielded, hpending, hidle⟩ := h.rest
  refine ⟨?_, ⟨rest, hyielded, ?_, ?_⟩, ?_, ?_, ?_⟩
  · rw [hmonitor, hsettings]
    exact h.captured
  · rw [hmonitor]
    exact hpending
  · rw [hmonitor]
    exact fun hnone hfail => hidle hnone (hfail.imp hfailure id)
  · rw [hmonitor]
    exact h.idle
  · rw [hsettings, hrequested]
    exact h.beyond
  · rw [hsettings, hrequested, hlimited]
    exact h.limited

/-- A request that is not about the stream. -/
theorem Captures.request (h : Captures stream events call handled) (reason : ProcessTerminationReason) {other : Option ProcessOutputStream}
    (hother : other ≠ some stream) : Captures stream events (requestTermination reason other call) handled := by
  have hframe := requestTermination_frame reason other call
  rcases requestTermination_cases reason other call with ⟨-, -, hrequested, hlimited⟩ | ⟨hrequested, hlimited, -⟩
  · obtain ⟨rest, hyielded, hpending, hidle⟩ := h.rest
    refine ⟨?_, ⟨rest, hyielded, ?_, ?_⟩, ?_, fun _ => by rw [hrequested]; rfl, fun hlim => ?_⟩
    · rw [hframe.monitor, hframe.settings]
      exact h.captured
    · rw [hframe.monitor]
      exact hpending
    · rw [hframe.monitor, requestTermination_failure]
      exact hidle
    · rw [hframe.monitor]
      exact h.idle
    · rw [hlimited] at hlim
      exact absurd hlim hother
  · exact h.congr (hframe.monitor stream) hframe.settings (fun hnone => by rwa [requestTermination_failure] at hnone) hrequested hlimited

theorem Captures.fail (h : Captures stream events call handled) (phase : ProcessExecutionErrorPhase) (error : Thrown) :
    Captures stream events (recordIoFailure phase error call) handled := by
  have hframe := recordIoFailure_frame phase error call
  obtain ⟨hrequested, hlimited, hfailure⟩ := recordIoFailure_request phase error call
  exact h.congr (hframe.monitor stream) hframe.settings (fun hnone => by rw [hfailure] at hnone; cases hnone) hrequested hlimited

/-- The monitor of another stream changes. -/
theorem Captures.elsewhere (h : Captures stream events call handled) {other : ProcessOutputStream} (hother : stream ≠ other) (monitor : Monitor) :
    Captures stream events (call.setMonitor other monitor) handled :=
  have hbeside := setMonitor_beside call other monitor
  h.congr (setMonitor_other call monitor hother) hbeside.settings (fun hnone => hbeside.failure ▸ hnone) hbeside.requested hbeside.limited

/-- A handler has returned from the chunk it was given. -/
theorem Captures.chunkHandled (h : Captures stream events call handled) {chunk : List UInt8} (hpending : (call.monitor stream).pending = some chunk) :
    Captures stream events (captureChunk call stream chunk) (handled ++ chunk) := by
  obtain ⟨rest, hyielded, hrest, -⟩ := h.rest
  rw [hrest chunk hpending] at hyielded
  have hopen : (call.monitor stream).settled = false := by
    cases hsettled : (call.monitor stream).settled with
    | false => rfl
    | true =>
      rw [h.idle hsettled] at hpending
      cases hpending
  have hcaptured := h.captured
  have hlength : (call.monitor stream).captured.length = min call.settings.maxCaptureBytes handled.length := by
    rw [hcaptured, List.length_take]
  -- What is captured after the chunk is the beginning of what is handled after it.
  have htake : ∀ taken : List UInt8, taken = chunk.take (call.settings.maxCaptureBytes - (call.monitor stream).captured.length) →
      (call.monitor stream).captured ++ taken = (handled ++ chunk).take call.settings.maxCaptureBytes := by
    rintro taken rfl
    rw [List.take_append, hlength, hcaptured]
    congr 2
    omega
  unfold captureChunk
  by_cases hfits : chunk.length ≤ call.settings.maxCaptureBytes - (call.monitor stream).captured.length
  · have hbeside := setMonitor_beside call stream ⟨(call.monitor stream).captured ++ chunk, none, false⟩
    dsimp only
    rw [if_pos hfits]
    refine ⟨?_, ⟨[], ?_, ?_, ?_⟩, ?_, fun hover => ?_, fun hlim => ?_⟩
    · rw [setMonitor_same, hbeside.settings]
      exact htake chunk (List.take_of_length_le hfits).symm
    · rw [List.append_nil, hyielded]
    · rw [setMonitor_same]
      exact fun _ hsome => (nomatch hsome)
    · exact fun _ _ => rfl
    · rw [setMonitor_same]
      exact fun hsettled => (nomatch hsettled)
    · rw [hbeside.settings, List.length_append] at hover
      rw [hbeside.requested]
      refine h.beyond ?_
      by_cases hmore : call.settings.maxCaptureBytes < handled.length
      · exact hmore
      · omega
    · rw [hbeside.limited] at hlim
      obtain ⟨hreason, hover⟩ := h.limited hlim
      rw [hbeside.requested, hbeside.settings, List.length_append]
      exact ⟨hreason, by omega⟩
  · have hbeside := setMonitor_beside call stream ⟨(call.monitor stream).captured ++
      chunk.take (call.settings.maxCaptureBytes - (call.monitor stream).captured.length), none, false⟩
    have hover : call.settings.maxCaptureBytes < (handled ++ chunk).length := by
      rw [List.length_append]
      omega
    dsimp only
    rw [if_neg hfits]
    generalize hcall : call.setMonitor stream ⟨(call.monitor stream).captured ++
      chunk.take (call.settings.maxCaptureBytes - (call.monitor stream).captured.length), none, false⟩ = wide at hbeside
    have hmonitor : wide.monitor stream = ⟨(call.monitor stream).captured ++
        chunk.take (call.settings.maxCaptureBytes - (call.monitor stream).captured.length), none, false⟩ := by
      rw [← hcall, setMonitor_same]
    have hframe := requestTermination_frame .outputLimit (some stream) wide
    refine ⟨?_, ⟨[], ?_, ?_, ?_⟩, ?_, fun _ => ?_, fun hlim => ?_⟩
    · rw [hframe.monitor, hframe.settings, hmonitor, hbeside.settings]
      exact htake _ rfl
    · rw [List.append_nil, hyielded]
    · rw [hframe.monitor, hmonitor]
      exact fun _ hsome => (nomatch hsome)
    · exact fun _ _ => rfl
    · rw [hframe.monitor, hmonitor]
      exact fun hsettled => (nomatch hsettled)
    · rcases requestTermination_cases .outputLimit (some stream) wide with ⟨-, -, hrequested, -⟩ | ⟨hrequested, -, hsome⟩
      · rw [hrequested]
        rfl
      · rw [hrequested]
        exact hsome rfl
    · rw [hframe.settings, hbeside.settings]
      refine ⟨?_, hover⟩
      rcases requestTermination_cases .outputLimit (some stream) wide with ⟨-, -, hrequested, -⟩ | ⟨hrequested, hlimited, -⟩
      · exact hrequested
      · rw [hlimited, hbeside.limited] at hlim
        rw [hrequested, hbeside.requested]
        exact (h.limited hlim).1

/-- A handler throws: what it was given is lost, and the stream is done. -/
theorem Captures.dropped (h : Captures stream events call handled) (error : Thrown) :
    Captures stream events (recordIoFailure (.output stream) error
      (call.setMonitor stream { call.monitor stream with pending := none, settled := true })) handled := by
  have hbeside := setMonitor_beside call stream { call.monitor stream with pending := none, settled := true }
  generalize hcall : call.setMonitor stream { call.monitor stream with pending := none, settled := true } = next at hbeside
  have hmonitor : next.monitor stream = { call.monitor stream with pending := none, settled := true } := by rw [← hcall, setMonitor_same]
  have hframe := recordIoFailure_frame (.output stream) error next
  obtain ⟨hrequested, hlimited, hfailure⟩ := recordIoFailure_request (.output stream) error next
  obtain ⟨rest, hyielded, -, -⟩ := h.rest
  refine ⟨?_, ⟨rest, hyielded, ?_, ?_⟩, ?_, ?_, ?_⟩
  · rw [hframe.monitor, hmonitor, hframe.settings, hbeside.settings]
    exact h.captured
  · rw [hframe.monitor, hmonitor]
    exact fun _ hpending => (nomatch hpending)
  · rw [hframe.monitor, hmonitor, hfailure]
    rintro - (hnone | hopen)
    · cases hnone
    · cases hopen
  · rw [hframe.monitor, hmonitor]
    exact fun _ => rfl
  · rw [hframe.settings, hbeside.settings, hrequested, hbeside.requested]
    exact h.beyond
  · rw [hframe.settings, hbeside.settings, hrequested, hbeside.requested, hlimited, hbeside.limited]
    exact h.limited

/-- The stream ends with nothing under way. -/
theorem Captures.done (h : Captures stream events call handled) (hnone : (call.monitor stream).pending = none)
    (hopen : (call.monitor stream).settled = false) :
    Captures stream events (call.setMonitor stream { call.monitor stream with settled := true }) handled := by
  have hbeside := setMonitor_beside call stream { call.monitor stream with settled := true }
  obtain ⟨rest, hyielded, -, hidle⟩ := h.rest
  refine ⟨?_, ⟨rest, hyielded, ?_, fun _ _ => hidle hnone (.inr hopen)⟩, ?_, ?_, ?_⟩
  · rw [setMonitor_same, hbeside.settings]
    exact h.captured
  · rw [setMonitor_same]
    intro chunk hpending
    rw [show (call.monitor stream).pending = some chunk from hpending] at hnone
    cases hnone
  · rw [setMonitor_same]
    exact fun _ => hnone
  · rw [hbeside.settings, hbeside.requested]
    exact h.beyond
  · rw [hbeside.settings, hbeside.requested, hbeside.limited]
    exact h.limited

theorem Captures.completed (h : Captures stream events call handled) (completion : ProcessCompletion) :
    Captures stream events (call.complete completion) handled := by
  unfold Call.complete
  split
  · exact h
  · exact h.congr (by cases stream <;> rfl) rfl id rfl rfl

variable {decode : List UInt8 → String} {event : Event}

/-- One event of a stream, from what it was handled to what it is handled. -/
theorem advance_captures (h : Captures stream events call handled) (hadvance : advance decode call event = some call') :
    ∃ handled', Captures stream (events ++ [event]) call' handled' := by
  unfold advance at hadvance
  split at hadvance
  · cases hadvance
  · cases event with
    | chunk other bytes =>
      dsimp only at hadvance
      split at hadvance
      · cases hadvance
      · next hfree =>
        cases hadvance
        by_cases hother : stream = other
        · subst hother
          rw [not_or] at hfree
          have hbeside := setMonitor_beside call stream { call.monitor stream with pending := some bytes }
          have hnone : (call.monitor stream).pending = none := by simpa using hfree.2
          have hopen : (call.monitor stream).settled = false := by simpa using hfree.1
          obtain ⟨rest, hyielded, -, hidle⟩ := h.rest
          refine ⟨handled, ?_, ⟨bytes, ?_, ?_, ?_⟩, ?_, ?_, ?_⟩
          · rw [setMonitor_same, hbeside.settings]
            exact h.captured
          · rw [yielded_snoc, hyielded, hidle hnone (.inr hopen), List.append_nil]
            simp [Event.bytes]
          · rw [setMonitor_same]
            exact fun chunk hchunk => Option.some.inj hchunk
          · rw [setMonitor_same]
            exact fun hpending => (nomatch hpending)
          · rw [setMonitor_same]
            exact fun hsettled => absurd hsettled hfree.1
          · rw [hbeside.settings, hbeside.requested]
            exact h.beyond
          · rw [hbeside.settings, hbeside.requested, hbeside.limited]
            exact h.limited
        · exact ⟨handled, (h.snoc (.chunk other bytes) (by simp [Event.bytes, Ne.symm hother])).elsewhere hother _⟩
    | handled other thrown =>
      dsimp only at hadvance
      cases hpending : (call.monitor other).pending with
      | none =>
        rw [hpending] at hadvance
        cases hadvance
      | some chunk =>
        rw [hpending] at hadvance
        cases thrown with
        | none =>
          cases hadvance
          have hnext := h.snoc (.handled other none) rfl
          by_cases hother : stream = other
          · subst hother
            exact ⟨_, hnext.chunkHandled hpending⟩
          · refine ⟨handled, ?_⟩
            unfold captureChunk
            dsimp only
            split
            · exact hnext.elsewhere hother _
            · exact (hnext.elsewhere hother _).request _ (by simpa using Ne.symm hother)
        | some error =>
          cases hadvance
          have hnext := h.snoc (.handled other (some error)) rfl
          by_cases hother : stream = other
          · subst hother
            exact ⟨handled, hnext.dropped error⟩
          · exact ⟨handled, (hnext.elsewhere hother _).fail _ _⟩
    | ended other thrown =>
      dsimp only at hadvance
      split at hadvance
      · cases hadvance
      · next hfree =>
        rw [not_or] at hfree
        have hnone : (call.monitor other).pending = none := by simpa using hfree.2
        have hopen : (call.monitor other).settled = false := by simpa using hfree.1
        have hended : ∃ handled', Captures stream (events ++ [.ended other thrown])
            (call.setMonitor other { call.monitor other with settled := true }) handled' := by
          have hnext := h.snoc (.ended other thrown) rfl
          by_cases hother : stream = other
          · subst hother
            exact ⟨handled, hnext.done hnone hopen⟩
          · exact ⟨handled, hnext.elsewhere hother _⟩
        obtain ⟨handled', hended⟩ := hended
        cases thrown with
        | none =>
          cases hadvance
          exact ⟨handled', hended⟩
        | some error =>
          cases hadvance
          exact ⟨handled', hended.fail _ _⟩
    | inputSettled thrown =>
      have hnext := h.snoc (.inputSettled thrown) rfl
      have hsettled : Captures stream (events ++ [.inputSettled thrown]) { call with stdinSettled := true } handled :=
        hnext.congr (by cases stream <;> rfl) rfl id rfl rfl
      dsimp only at hadvance
      split at hadvance
      · cases hadvance
      · cases thrown with
        | none =>
          cases hadvance
          exact ⟨handled, hsettled⟩
        | some error =>
          dsimp only at hadvance
          split at hadvance
          · cases hadvance
            exact ⟨handled, hsettled⟩
          · cases hadvance
            exact ⟨handled, hsettled.fail _ _⟩
    | aborted =>
      dsimp only at hadvance
      split at hadvance
      · cases hadvance
        have hnext : Captures stream (events ++ [.aborted]) { call with listening := false } handled :=
          (h.snoc .aborted rfl).congr (by cases stream <;> rfl) rfl id rfl rfl
        exact ⟨handled, hnext.request _ (by simp)⟩
      · cases hadvance
    | timedOut =>
      dsimp only at hadvance
      split at hadvance
      · cases hadvance
        have hnext : Captures stream (events ++ [.timedOut]) { call with timeoutTimer := false } handled :=
          (h.snoc .timedOut rfl).congr (by cases stream <;> rfl) rfl id rfl rfl
        exact ⟨handled, hnext.request _ (by simp)⟩
      · cases hadvance
    | graceElapsed =>
      dsimp only at hadvance
      split at hadvance
      · cases hadvance
        refine ⟨handled, (h.snoc .graceElapsed rfl).congr ?_ ?_ ?_ ?_ ?_⟩
        all_goals unfold signalProcessTree; repeat' split
        all_goals first | rfl | exact id
      · cases hadvance
    | errored error =>
      cases hadvance
      exact ⟨handled, (h.snoc (.errored error) rfl).completed _⟩
    | closed exitCode signal =>
      cases hadvance
      exact ⟨handled, (h.snoc (.closed exitCode signal) rfl).completed _⟩
    | resumed =>
      dsimp only at hadvance
      split at hadvance
      · cases hadvance
      · split at hadvance
        · cases hadvance
          exact ⟨handled, (h.snoc .resumed rfl).congr (by cases stream <;> rfl) rfl id rfl rfl⟩
        · cases hadvance

end Outputs

/-! ## Signals and requests -/

/-- A request to stop: what it is for, and the stream that has gone over. -/
structure Proper (reason : ProcessTerminationReason) (stream : Option ProcessOutputStream) : Prop where
  stops : reason ≠ .exit ∧ reason ≠ .signal
  stream : stream.isSome = true ↔ reason = .outputLimit

/-- The signals that have been sent, and why. -/
structure Signalled (call : Call) : Prop where
  unasked : call.requestedTermination = none → call.limitedStream = none
  named : ∀ reason, call.requestedTermination = some reason → Proper reason call.limitedStream
  unspawned : call.pid = none → call.signals = []
  before : call.terminationStarted = false → call.signals = [] ∧ call.forceKillTimer = false
  after : call.terminationStarted = true → call.pid.isSome = true →
    call.signals = [.sigterm] ∨ (call.signals = [.sigterm, .sigkill] ∧ call.forceKillTimer = false)
  asked : call.requestedTermination.isSome = true ∨ call.failure.isSome = true → call.terminationStarted = true ∨ call.completion.isSome = true

/-- A signal that a turn sends, and when it does: SIGKILL where the turn `kills`. -/
inductive Sends (kills : Prop) (call call' : Call) : Prop
  | nothing : call'.signals = call.signals → Sends kills call call'
  | sigterm : call.completion = none → call.terminationStarted = false → call'.signals = call.signals ++ [.sigterm] → Sends kills call call'
  | sigkill : kills → call.completion = none → call.forceKillTimer = true → call'.signals = call.signals ++ [.sigkill] → Sends kills call call'

/-- What a turn keeps: the first request, the first failure, the completion. -/
structure Turn (kills : Prop) (call call' : Call) : Prop where
  completion : ∀ completion, call.completion = some completion → call'.completion = some completion
  requested : call.requestedTermination.isSome = true →
    call'.requestedTermination = call.requestedTermination ∧ call'.limitedStream = call.limitedStream
  failure : ∀ failure, call.failure = some failure → call'.failure = some failure
  pid : call'.pid = call.pid
  signalled : Signalled call → Signalled call'
  sends : Sends kills call call'

section Turns

variable {call call' next : Call} {kills : Prop}

theorem Beside.signalled (h : Beside call call') (hsignalled : Signalled call) : Signalled call' := by
  refine ⟨?_, ?_, ?_, ?_, ?_, ?_⟩
  · rw [h.requested, h.limited]
    exact hsignalled.unasked
  · rw [h.requested, h.limited]
    exact hsignalled.named
  · rw [h.pid, h.signals]
    exact hsignalled.unspawned
  · rw [h.started, h.signals, h.timer]
    exact hsignalled.before
  · rw [h.started, h.pid, h.signals, h.timer]
    exact hsignalled.after
  · rw [h.requested, h.failure, h.started, h.completion]
    exact hsignalled.asked

theorem Turn.of_beside (h : Beside call call') : Turn kills call call' :=
  ⟨fun _ hc => h.completion.trans hc, fun _ => ⟨h.requested, h.limited⟩, fun _ hf => h.failure.trans hf, h.pid, h.signalled,
    .nothing h.signals⟩

theorem Turn.after_beside (h : Beside call call') (hturn : Turn kills call' next) : Turn kills call next := by
  refine ⟨fun c hc => hturn.completion c (h.completion.trans hc), fun hrequested => ?_, fun f hf => hturn.failure f (h.failure.trans hf),
    hturn.pid.trans h.pid, fun hsignalled => hturn.signalled (h.signalled hsignalled), ?_⟩
  · have hkept := hturn.requested (by rw [h.requested]; exact hrequested)
    rw [h.requested, h.limited] at hkept
    exact hkept
  · cases hturn.sends with
    | nothing hsame => exact .nothing (hsame.trans h.signals)
    | sigterm hopen hstarted hsent => exact .sigterm (h.completion ▸ hopen) (h.started ▸ hstarted) (h.signals ▸ hsent)
    | sigkill hkills hopen htimer hsent => exact .sigkill hkills (h.completion ▸ hopen) (h.timer ▸ htimer) (h.signals ▸ hsent)

theorem proper_limit (stream : ProcessOutputStream) : Proper .outputLimit (some stream) := ⟨by simp, by simp⟩

theorem proper_aborted : Proper .aborted none := ⟨by simp, by simp⟩

theorem proper_timeout : Proper .timeout none := ⟨by simp, by simp⟩

/-- Termination is begun, whatever has asked for it. -/
theorem beginTermination_signalled (kills : Prop) (call : Call) (hunasked : call.requestedTermination = none → call.limitedStream = none)
    (hnamed : ∀ reason, call.requestedTermination = some reason → Proper reason call.limitedStream) (hunspawned : call.pid = none → call.signals = [])
    (hbefore : call.terminationStarted = false → call.signals = [] ∧ call.forceKillTimer = false)
    (hafter : call.terminationStarted = true → call.pid.isSome = true →
      call.signals = [.sigterm] ∨ (call.signals = [.sigterm, .sigkill] ∧ call.forceKillTimer = false)) :
    Signalled (beginTermination call) ∧ Sends kills call (beginTermination call) := by
  unfold beginTermination
  by_cases hstopped : (call.terminationStarted || call.processFinished) = true
  · rw [if_pos hstopped]
    refine ⟨⟨hunasked, hnamed, hunspawned, hbefore, hafter, fun _ => ?_⟩, .nothing rfl⟩
    simpa [Call.processFinished] using hstopped
  · rw [if_neg hstopped]
    simp only [Bool.or_eq_true, not_or, Bool.not_eq_true] at hstopped
    obtain ⟨hstarted, hfinished⟩ := hstopped
    have hopen : call.completion = none := by simpa [Call.processFinished] using hfinished
    obtain ⟨hnone, -⟩ := hbefore hstarted
    unfold signalProcessTree
    by_cases hpid : call.pid.isSome = true
    · rw [if_pos hpid]
      refine ⟨⟨hunasked, hnamed, fun h => ?_, fun h => (nomatch h), fun _ _ => .inl ?_, fun _ => .inl rfl⟩, .sigterm hopen hstarted rfl⟩
      · rw [h] at hpid
        cases hpid
      · show call.signals ++ [.sigterm] = [.sigterm]
        rw [hnone]
        rfl
    · rw [if_neg hpid]
      exact ⟨⟨hunasked, hnamed, fun _ => hnone, fun h => (nomatch h), fun _ h => absurd h hpid, fun _ => .inl rfl⟩, .nothing rfl⟩

theorem requestTermination_turn (kills : Prop) {reason : ProcessTerminationReason} {stream : Option ProcessOutputStream} (hproper : Proper reason stream)
    (call : Call) (hsignalled : Signalled call) : Turn kills call (requestTermination reason stream call) := by
  have hframe := requestTermination_frame reason stream call
  have hresult : Signalled (requestTermination reason stream call) ∧ Sends kills call (requestTermination reason stream call) := by
    unfold requestTermination
    split
    · exact ⟨hsignalled, .nothing rfl⟩
    · split
      · exact ⟨hsignalled, .nothing rfl⟩
      · obtain ⟨hkept, hsends⟩ := beginTermination_signalled kills { call with requestedTermination := some reason, limitedStream := stream }
          (fun h => (nomatch h)) (fun _ h => (by cases h; exact hproper)) hsignalled.unspawned hsignalled.before hsignalled.after
        refine ⟨hkept, ?_⟩
        cases hsends with
        | nothing hsame => exact .nothing hsame
        | sigterm hopen hstarted hsent => exact .sigterm hopen hstarted hsent
        | sigkill hkills hopen htimer hsent => exact .sigkill hkills hopen htimer hsent
  refine ⟨fun c hc => hframe.completion.trans hc, fun hrequested => ?_, fun f hf => (requestTermination_failure reason stream call).trans hf,
    hframe.pid, fun _ => hresult.1, hresult.2⟩
  rcases requestTermination_cases reason stream call with ⟨hnone, -⟩ | ⟨hkept, hlimited, -⟩
  · rw [hnone] at hrequested
    cases hrequested
  · exact ⟨hkept, hlimited⟩

theorem recordIoFailure_turn (kills : Prop) (phase : ProcessExecutionErrorPhase) (error : Thrown) (call : Call) (hsignalled : Signalled call) :
    Turn kills call (recordIoFailure phase error call) := by
  have hframe := recordIoFailure_frame phase error call
  obtain ⟨hrequested, hlimited, hfailure⟩ := recordIoFailure_request phase error call
  have hresult : Signalled (recordIoFailure phase error call) ∧ Sends kills call (recordIoFailure phase error call) := by
    unfold recordIoFailure
    split
    · exact ⟨hsignalled, .nothing rfl⟩
    · obtain ⟨hkept, hsends⟩ := beginTermination_signalled kills { call with failure := some (phase, error) }
        hsignalled.unasked hsignalled.named hsignalled.unspawned hsignalled.before hsignalled.after
      refine ⟨hkept, ?_⟩
      cases hsends with
      | nothing hsame => exact .nothing hsame
      | sigterm hopen hstarted hsent => exact .sigterm hopen hstarted hsent
      | sigkill hkills hopen htimer hsent => exact .sigkill hkills hopen htimer hsent
  refine ⟨fun c hc => hframe.completion.trans hc, fun _ => ⟨hrequested, hlimited⟩, fun f hf => ?_, hframe.pid, fun _ => hresult.1, hresult.2⟩
  rw [hfailure, hf]
  rfl

theorem complete_turn (call : Call) (completion : ProcessCompletion) : Turn kills call (call.complete completion) := by
  unfold Call.complete
  by_cases hdone : call.completion.isSome = true
  · rw [if_pos hdone]
    exact ⟨fun _ h => h, fun _ => ⟨rfl, rfl⟩, fun _ h => h, rfl, id, .nothing rfl⟩
  · rw [if_neg hdone]
    refine ⟨fun c hc => absurd (by rw [hc]; rfl) hdone, fun _ => ⟨rfl, rfl⟩, fun _ h => h, rfl,
      fun h => ⟨h.unasked, h.named, h.unspawned, h.before, h.after, fun _ => .inr rfl⟩, .nothing rfl⟩

variable {decode : List UInt8 → String} {event : Event}

/-- The grace has passed. -/
theorem grace_turn (htimer : call.forceKillTimer = true) (hsignalled : Signalled call) : Turn (Event.graceElapsed = .graceElapsed) call
    (if Call.processFinished { call with forceKillTimer := false } then { call with forceKillTimer := false }
      else signalProcessTree { call with forceKillTimer := false } .sigkill) := by
  have hstarted : call.terminationStarted = true := by
    cases hstarted : call.terminationStarted with
    | true => rfl
    | false =>
      rw [(hsignalled.before hstarted).2] at htimer
      cases htimer
  -- The timer is set, so SIGTERM is all that has been sent.
  have hone : call.pid.isSome = true → call.signals = [.sigterm] := by
    intro hpid
    rcases hsignalled.after hstarted hpid with hone | ⟨-, hcleared⟩
    · exact hone
    · rw [hcleared] at htimer
      cases htimer
  by_cases hfinished : Call.processFinished { call with forceKillTimer := false } = true
  · rw [if_pos hfinished]
    exact ⟨fun _ h => h, fun _ => ⟨rfl, rfl⟩, fun _ h => h, rfl,
      fun h => ⟨h.unasked, h.named, h.unspawned, fun hb => ⟨(h.before hb).1, rfl⟩, fun _ hp => .inl (hone hp), h.asked⟩, .nothing rfl⟩
  · rw [if_neg hfinished]
    have hopen : call.completion = none := by simpa [Call.processFinished] using hfinished
    unfold signalProcessTree
    by_cases hpid : call.pid.isSome = true
    · rw [if_pos hpid]
      refine ⟨fun _ h => h, fun _ => ⟨rfl, rfl⟩, fun _ h => h, rfl, fun h => ⟨h.unasked, h.named, fun hp => ?_, fun hb => ?_,
        fun _ _ => .inr ⟨?_, rfl⟩, h.asked⟩,
        .sigkill rfl hopen htimer rfl⟩
      · rw [show call.pid = none from hp] at hpid
        cases hpid
      · rw [show call.terminationStarted = false from hb] at hstarted
        cases hstarted
      · show call.signals ++ [.sigkill] = _
        rw [hone hpid]
        rfl
    · rw [if_neg hpid]
      exact ⟨fun _ h => h, fun _ => ⟨rfl, rfl⟩, fun _ h => h, rfl,
        fun h => ⟨h.unasked, h.named, h.unspawned, fun hb => ⟨(h.before hb).1, rfl⟩, fun _ hp => absurd hp hpid, h.asked⟩, .nothing rfl⟩

/-- A call that has not settled, and how it does. -/
structure Settles (decode : List UInt8 → String) (call call' : Call) (event : Event) : Prop where
  open_ : call.outcome = none
  settled : call'.outcome = none ∨ (event = .resumed ∧ ∃ completion, call.completion = some completion ∧
    call' = { call with outcome := some (settle decode call completion), forceKillTimer := false, timeoutTimer := false, listening := false } ∧
    call.stdinSettled = true ∧ call.stdout.settled = true ∧ call.stderr.settled = true)

theorem Settles.still (hopen : call.outcome = none) (hsame : call'.outcome = call.outcome) : Settles decode call call' event :=
  ⟨hopen, .inl (hsame.trans hopen)⟩

theorem advance_turn (hsignalled : Signalled call) (hadvance : advance decode call event = some call') :
    Turn (event = .graceElapsed) call call' ∧ Settles decode call call' event := by
  unfold advance at hadvance
  split at hadvance
  · cases hadvance
  · next hunsettled =>
    have hopen : call.outcome = none := by simpa using hunsettled
    cases event with
    | chunk stream bytes =>
      dsimp only at hadvance
      split at hadvance
      · cases hadvance
      · cases hadvance
        have hbeside := setMonitor_beside call stream { call.monitor stream with pending := some bytes }
        exact ⟨.of_beside hbeside, .still hopen hbeside.outcome⟩
    | handled stream thrown =>
      dsimp only at hadvance
      cases hpending : (call.monitor stream).pending with
      | none =>
        rw [hpending] at hadvance
        cases hadvance
      | some chunk =>
        rw [hpending] at hadvance
        cases thrown with
        | none =>
          cases hadvance
          unfold captureChunk
          dsimp only
          split
          · have hbeside := setMonitor_beside call stream ⟨(call.monitor stream).captured ++ chunk, none, false⟩
            exact ⟨.of_beside hbeside, .still hopen hbeside.outcome⟩
          · have hbeside := setMonitor_beside call stream ⟨(call.monitor stream).captured ++
              chunk.take (call.settings.maxCaptureBytes - (call.monitor stream).captured.length), none, false⟩
            have hturn := requestTermination_turn (Event.handled stream none = .graceElapsed) (proper_limit stream) _
              (hbeside.signalled hsignalled)
            exact ⟨hturn.after_beside hbeside, .still hopen ((requestTermination_frame _ _ _).outcome.trans hbeside.outcome)⟩
        | some error =>
          cases hadvance
          have hbeside := setMonitor_beside call stream { call.monitor stream with pending := none, settled := true }
          have hturn := recordIoFailure_turn (Event.handled stream (some error) = .graceElapsed) (.output stream) error _
            (hbeside.signalled hsignalled)
          exact ⟨hturn.after_beside hbeside, .still hopen ((recordIoFailure_frame _ _ _).outcome.trans hbeside.outcome)⟩
    | ended stream thrown =>
      have hbeside := setMonitor_beside call stream { call.monitor stream with settled := true }
      dsimp only at hadvance
      split at hadvance
      · cases hadvance
      · cases thrown with
        | none =>
          cases hadvance
          exact ⟨.of_beside hbeside, .still hopen hbeside.outcome⟩
        | some error =>
          cases hadvance
          have hturn := recordIoFailure_turn (Event.ended stream (some error) = .graceElapsed) (.output stream) error _
            (hbeside.signalled hsignalled)
          exact ⟨hturn.after_beside hbeside, .still hopen ((recordIoFailure_frame _ _ _).outcome.trans hbeside.outcome)⟩
    | inputSettled thrown =>
      have hbeside : Beside call { call with stdinSettled := true } := ⟨rfl, rfl, rfl, rfl, rfl, rfl, rfl, rfl, rfl, rfl⟩
      dsimp only at hadvance
      split at hadvance
      · cases hadvance
      · cases thrown with
        | none =>
          cases hadvance
          exact ⟨.of_beside hbeside, .still hopen rfl⟩
        | some error =>
          dsimp only at hadvance
          split at hadvance
          · cases hadvance
            exact ⟨.of_beside hbeside, .still hopen rfl⟩
          · cases hadvance
            have hturn := recordIoFailure_turn (Event.inputSettled (some error) = .graceElapsed) .stdin error _
              (hbeside.signalled hsignalled)
            exact ⟨hturn.after_beside hbeside, .still hopen (recordIoFailure_frame _ _ _).outcome⟩
    | aborted =>
      have hbeside : Beside call { call with listening := false } := ⟨rfl, rfl, rfl, rfl, rfl, rfl, rfl, rfl, rfl, rfl⟩
      dsimp only at hadvance
      split at hadvance
      · cases hadvance
        have hturn := requestTermination_turn (Event.aborted = .graceElapsed) proper_aborted _ (hbeside.signalled hsignalled)
        exact ⟨hturn.after_beside hbeside, .still hopen (requestTermination_frame _ _ _).outcome⟩
      · cases hadvance
    | timedOut =>
      have hbeside : Beside call { call with timeoutTimer := false } := ⟨rfl, rfl, rfl, rfl, rfl, rfl, rfl, rfl, rfl, rfl⟩
      dsimp only at hadvance
      split at hadvance
      · cases hadvance
        have hturn := requestTermination_turn (Event.timedOut = .graceElapsed) proper_timeout _ (hbeside.signalled hsignalled)
        exact ⟨hturn.after_beside hbeside, .still hopen (requestTermination_frame _ _ _).outcome⟩
      · cases hadvance
    | graceElapsed =>
      dsimp only at hadvance
      split at hadvance
      · next htimer =>
        cases hadvance
        refine ⟨grace_turn htimer hsignalled, .still hopen ?_⟩
        split
        · rfl
        · exact signalProcessTree_outcome _ _
      · cases hadvance
    | errored error =>
      cases hadvance
      exact ⟨complete_turn call _, .still hopen (by unfold Call.complete; split <;> rfl)⟩
    | closed exitCode signal =>
      cases hadvance
      exact ⟨complete_turn call _, .still hopen (by unfold Call.complete; split <;> rfl)⟩
    | resumed =>
      dsimp only at hadvance
      split at hadvance
      · cases hadvance
      · next completion hcompletion =>
        by_cases htasks : (call.stdinSettled && call.stdout.settled && call.stderr.settled) = true
        · rw [if_pos htasks] at hadvance
          cases hadvance
          simp only [Bool.and_eq_true] at htasks
          refine ⟨⟨fun _ h => h, fun _ => ⟨rfl, rfl⟩, fun _ h => h, rfl, fun h => ?_, .nothing rfl⟩,
            hopen, .inr ⟨rfl, completion, hcompletion, rfl, htasks.1.1, htasks.1.2, htasks.2⟩⟩
          refine ⟨h.unasked, h.named, h.unspawned, fun hb => ⟨(h.before hb).1, rfl⟩, fun hs hp => ?_, h.asked⟩
          rcases h.after hs hp with hone | ⟨htwo, -⟩
          · exact .inl hone
          · exact .inr ⟨htwo, rfl⟩
        · rw [if_neg htasks] at hadvance
          cases hadvance

end Turns

/-! ## Runs -/

section Runs

variable {decode : List UInt8 → String} {events : List Event} {call : Call}

theorem runProcess_eq_inr {request : ProcessRequest} {options : RunProcessOptions} {aborted : Option Bool} {pid : Option Nat} {abortedMeanwhile : Bool}
    (h : runProcess request options aborted pid abortedMeanwhile = .ok (.inr call)) :
    ∃ settings, call = launch request settings pid aborted.isSome abortedMeanwhile := by
  unfold runProcess at h
  cases hsettings : validateInvocation request options with
  | error message =>
    rw [hsettings] at h
    cases h
  | ok settings =>
    rw [hsettings] at h
    have h : (if aborted = some true then Except.ok (Sum.inl _) else Except.ok (Sum.inr _)) = Except.ok (Sum.inr call) := h
    split at h
    · cases h
    · cases h
      exact ⟨settings, rfl⟩

/-- How a call begins. -/
theorem launch_begins (request : ProcessRequest) (settings : Settings) (pid : Option Nat) (hasSignal abortedMeanwhile : Bool) :
    Signalled (launch request settings pid hasSignal abortedMeanwhile) ∧ (launch request settings pid hasSignal abortedMeanwhile).outcome = none ∧
      ∀ stream, Captures stream [] (launch request settings pid hasSignal abortedMeanwhile) [] := by
  unfold launch
  dsimp only
  generalize hcall : ({
    command := request.command
    args := resultArgs request
    settings := settings
    pid := pid
    stdout := ⟨[], none, false⟩
    stderr := ⟨[], none, false⟩
    stdinSettled := false
    completion := none
    requestedTermination := none
    limitedStream := none
    failure := none
    terminationStarted := false
    forceKillTimer := false
    timeoutTimer := settings.timeoutMs.isSome
    listening := hasSignal
    signals := []
    outcome := none } : Call) = call
  have hsignalled : Signalled call := by
    subst hcall
    exact ⟨fun _ => rfl, fun _ h => (nomatch h), fun _ => rfl, fun _ => ⟨rfl, rfl⟩, fun h => (nomatch h), fun h => (by simp at h)⟩
  have hcaptures : ∀ stream, Captures stream [] call [] := by
    subst hcall
    intro stream
    have hmonitor : ∀ c : Call, c.stdout = ⟨[], none, false⟩ → c.stderr = ⟨[], none, false⟩ → c.monitor stream = ⟨[], none, false⟩ := by
      intro c hout herr
      cases stream with
      | stdout => exact hout
      | stderr => exact herr
    refine ⟨?_, ⟨[], rfl, ?_, fun _ _ => rfl⟩, ?_, fun h => (nomatch h), fun h => (nomatch h)⟩
    · rw [hmonitor _ rfl rfl, List.take_nil]
    · rw [hmonitor _ rfl rfl]
      exact fun _ h => (nomatch h)
    · rw [hmonitor _ rfl rfl]
      exact fun h => (nomatch h)
  have houtcome : call.outcome = none := by rw [← hcall]
  split
  · exact ⟨(requestTermination_turn (False) proper_aborted call hsignalled).signalled hsignalled,
      (requestTermination_frame _ _ _).outcome.trans houtcome, fun stream => (hcaptures stream).request _ (by simp)⟩
  · exact ⟨hsignalled, houtcome, hcaptures⟩

theorem run_signalled (h : Run (running decode) events call) : Signalled call := by
  refine Run.invariant (fun call hinit => ?_) (fun t event u ht hstep => ?_) h
  · obtain ⟨request, options, aborted, pid, abortedMeanwhile, hcall⟩ := hinit
    obtain ⟨settings, rfl⟩ := runProcess_eq_inr hcall
    exact (launch_begins request settings pid _ _).1
  · exact (advance_turn ht hstep).1.signalled ht

theorem run_captures (h : Run (running decode) events call) (stream : ProcessOutputStream) : ∃ handled, Captures stream events call handled := by
  refine Run.traceInvariant (P := fun events call => ∃ handled, Captures stream events call handled) (fun call hinit => ?_)
    (fun events t event u _ ht hstep => ?_) h
  · obtain ⟨request, options, aborted, pid, abortedMeanwhile, hcall⟩ := hinit
    obtain ⟨settings, rfl⟩ := runProcess_eq_inr hcall
    exact ⟨[], (launch_begins request settings pid _ _).2.2 stream⟩
  · obtain ⟨handled, ht⟩ := ht
    exact advance_captures ht hstep

/-- What has settled, has settled with this. -/
def Concluded (decode : List UInt8 → String) (call : Call) : Prop := ∀ outcome, call.outcome = some outcome →
  ∃ completion, call.completion = some completion ∧ outcome = settle decode call completion ∧ call.stdinSettled = true ∧
    ∀ stream, (call.monitor stream).settled = true

theorem run_concluded (h : Run (running decode) events call) : Concluded decode call := by
  refine Run.invariant_of (J := Signalled) (fun _ _ => run_signalled) (fun call hinit outcome houtcome => ?_)
    (fun t event u ht _ hstep outcome houtcome => ?_) h
  · obtain ⟨request, options, aborted, pid, abortedMeanwhile, hcall⟩ := hinit
    obtain ⟨settings, rfl⟩ := runProcess_eq_inr hcall
    rw [(launch_begins request settings pid _ _).2.1] at houtcome
    cases houtcome
  · rcases (advance_turn ht hstep).2.settled with hnone | ⟨-, completion, hcompletion, rfl, hinput, hstdout, hstderr⟩
    · rw [hnone] at houtcome
      cases houtcome
    · refine ⟨completion, hcompletion, (Option.some.inj houtcome).symm, hinput, fun stream => ?_⟩
      cases stream with
      | stdout => exact hstdout
      | stderr => exact hstderr

theorem settle_eq_ok {completion : ProcessCompletion} {result : ProcessResult} (h : settle decode call completion = .ok result) :
    ∃ exitCode signal, completion = .closed exitCode signal ∧ call.failure = none ∧
      result = ⟨call.command, call.args, decode call.stdout.captured, decode call.stderr.captured, exitCode, signal,
        call.requestedTermination.getD (if exitCode = none then .signal else .exit), call.limitedStream⟩ := by
  unfold settle at h
  cases completion with
  | spawnError error => cases h
  | closed exitCode signal =>
    cases hfailure : call.failure with
    | some failure =>
      rw [hfailure] at h
      cases h
    | none =>
      rw [hfailure] at h
      exact ⟨exitCode, signal, rfl, rfl, (Except.ok.inj h).symm⟩

/-- When a call returns, each output is the first bytes of what the child wrote to it: all of them
    where the child ended by itself. A stream is limited where it has gone over. -/
theorem result_captured (decode : List UInt8 → String) {events : List Event} {call : Call} {result : ProcessResult}
    (h : Run (running decode) events call) (hresult : call.outcome = some (.ok result)) :
    result.stdout = decode ((yielded .stdout events).take call.settings.maxCaptureBytes) ∧
      result.stderr = decode ((yielded .stderr events).take call.settings.maxCaptureBytes) ∧
      (result.terminationReason = .exit ∨ result.terminationReason = .signal →
        ∀ stream, (yielded stream events).length ≤ call.settings.maxCaptureBytes) ∧
      (result.limitedStream.isSome = true ↔ result.terminationReason = .outputLimit) ∧
      ∀ stream, result.limitedStream = some stream → call.settings.maxCaptureBytes < (yielded stream events).length := by
  obtain ⟨completion, -, hsettle, -, hsettled⟩ := run_concluded h _ hresult
  obtain ⟨exitCode, signal, -, hfailure, rfl⟩ := settle_eq_ok hsettle.symm
  have hsignalled := run_signalled h
  -- Every chunk has been handled: nothing failed and every stream has ended.
  have hall : ∀ stream, (call.monitor stream).captured = (yielded stream events).take call.settings.maxCaptureBytes ∧
      (call.settings.maxCaptureBytes < (yielded stream events).length → call.requestedTermination.isSome = true) ∧
      (call.limitedStream = some stream → call.settings.maxCaptureBytes < (yielded stream events).length) := by
    intro stream
    obtain ⟨handled, hcaptures⟩ := run_captures h stream
    obtain ⟨rest, hyielded, -, hidle⟩ := hcaptures.rest
    rw [hidle (hcaptures.idle (hsettled stream)) (.inl hfailure), List.append_nil] at hyielded
    rw [hyielded]
    exact ⟨hcaptures.captured, hcaptures.beyond, fun hlimited => (hcaptures.limited hlimited).2⟩
  have hlast : (if exitCode = none then ProcessTerminationReason.signal else .exit) = .signal ∨
      (if exitCode = none then ProcessTerminationReason.signal else .exit) = .exit := by
    by_cases hcode : exitCode = none
    · exact .inl (if_pos hcode)
    · exact .inr (if_neg hcode)
  refine ⟨congrArg decode (hall .stdout).1, congrArg decode (hall .stderr).1, fun hreason stream => ?_, ?_, fun stream => (hall stream).2.2⟩
  · by_cases hover : call.settings.maxCaptureBytes < (yielded stream events).length
    · obtain ⟨reason, hrequested⟩ := Option.isSome_iff_exists.mp ((hall stream).2.1 hover)
      have hproper := (hsignalled.named reason hrequested).stops
      rw [hrequested] at hreason
      rcases hreason with hexit | hsignal
      · exact absurd hexit hproper.1
      · exact absurd hsignal hproper.2
    · omega
  · cases hrequested : call.requestedTermination with
    | some reason =>
      exact (hsignalled.named reason hrequested).stream
    | none =>
      rw [hsignalled.unasked hrequested]
      rcases hlast with hlast | hlast <;> simp [hlast]

/-- A call of four bytes a stream at most, its child spawned, that no signal and no timer will stop. -/
def sampleCall : Call := launch ⟨"git", some ["status"], none⟩ ⟨4, 5000, none⟩ (some 7) false false

theorem sampleCall_starts : (running decode).init sampleCall :=
  ⟨⟨"git", some ["status"], none⟩, ⟨none, none, some 4⟩, none, some 7, false, rfl⟩

/-- Six bytes on one output, one on the other. -/
def sampleEvents : List Event :=
  [.chunk .stdout [1, 2, 3], .chunk .stderr [9], .handled .stdout none, .chunk .stdout [4, 5, 6], .handled .stderr none,
    .handled .stdout none, .inputSettled (some ⟨some "EPIPE", "write EPIPE"⟩), .ended .stdout none, .graceElapsed,
    .closed none (some "SIGKILL"), .ended .stderr none, .resumed]

/-- The decoder of the run below: as many letters as bytes. -/
def sampleDecode (bytes : List UInt8) : String := String.ofList (bytes.map fun byte => Char.ofNat (96 + byte.toNat))

theorem sampleEvents_result : ((follow (advance sampleDecode) sampleCall sampleEvents).bind fun call => call.outcome) =
    some (.ok ⟨"git", ["status"], "abcd", "i", none, some "SIGKILL", .outputLimit, some .stdout⟩) := by
  rfl

theorem result_captured_limited : ∃ call : Call, call.outcome =
      some (.ok ⟨"git", ["status"], "abcd", "i", none, some "SIGKILL", .outputLimit, some .stdout⟩) ∧
    "abcd" = sampleDecode ((yielded .stdout sampleEvents).take call.settings.maxCaptureBytes) ∧
    call.settings.maxCaptureBytes < (yielded .stdout sampleEvents).length := by
  obtain ⟨call, hfollow, houtcome⟩ := Option.bind_eq_some_iff.mp sampleEvents_result
  have hsteps : Steps (running sampleDecode) sampleCall sampleEvents call := follow_steps id hfollow
  obtain ⟨hstdout, -, -, -, hlimited⟩ := result_captured sampleDecode ⟨sampleCall, sampleCall_starts, hsteps⟩ houtcome
  exact ⟨call, houtcome, hstdout, hlimited .stdout rfl⟩

/-- SIGTERM once, as soon as there is a reason to stop a child that is there; SIGKILL once, when the
    grace has passed; nothing when the child is gone or the call has settled. -/
theorem signals_once (decode : List UInt8 → String) {events : List Event} {call : Call} (h : Run (running decode) events call) :
    call.signals <+: [.sigterm, .sigkill] ∧
      (call.pid.isSome = true → call.completion = none →
        call.requestedTermination.isSome = true ∨ call.failure.isSome = true → SentSignal.sigterm ∈ call.signals) ∧
      ∀ (event : Event) (call' : Call), (running decode).step call event call' → call'.signals ≠ call.signals →
        call.completion = none ∧ call.outcome = none ∧
          (call'.signals = [.sigterm] ∨ (call'.signals = [.sigterm, .sigkill] ∧ event = .graceElapsed)) := by
  have hsignalled := run_signalled h
  -- What has been sent is told by how far termination has gone.
  have hsent : call.signals = [] ∨ (call.terminationStarted = true ∧ (call.signals = [.sigterm] ∨ call.signals = [.sigterm, .sigkill])) := by
    cases hpid : call.pid with
    | none => exact .inl (hsignalled.unspawned hpid)
    | some pid =>
      cases hstarted : call.terminationStarted with
      | false => exact .inl (hsignalled.before hstarted).1
      | true =>
        rcases hsignalled.after hstarted (by rw [hpid]; rfl) with hone | ⟨htwo, -⟩
        · exact .inr ⟨rfl, .inl hone⟩
        · exact .inr ⟨rfl, .inr htwo⟩
  refine ⟨?_, fun hpid hopen hasked => ?_, fun event call' hstep hchanged => ?_⟩
  · rcases hsent with hnone | ⟨-, hone | htwo⟩
    · rw [hnone]
      exact List.nil_prefix
    · rw [hone]
      exact ⟨[.sigkill], rfl⟩
    · exact ⟨[], by rw [htwo, List.append_nil]⟩
  · rcases hsignalled.asked hasked with hstarted | hdone
    · rcases hsignalled.after hstarted hpid with hone | ⟨htwo, -⟩
      · rw [hone]
        exact List.mem_cons_self
      · rw [htwo]
        exact List.mem_cons_self
    · rw [hopen] at hdone
      cases hdone
  · obtain ⟨hturn, hsettles⟩ := advance_turn hsignalled hstep
    cases hturn.sends with
    | nothing hsame => exact absurd hsame hchanged
    | sigterm hopen hstarted hnew =>
      rw [(hsignalled.before hstarted).1] at hnew
      exact ⟨hopen, hsettles.open_, .inl hnew⟩
    | sigkill hgrace hopen htimer hnew =>
      refine ⟨hopen, hsettles.open_, .inr ⟨?_, hgrace⟩⟩
      have hstarted : call.terminationStarted = true := by
        cases hstarted : call.terminationStarted with
        | true => rfl
        | false =>
          rw [(hsignalled.before hstarted).2] at htimer
          cases htimer
      have hpid : call.pid.isSome = true := by
        cases hpid : call.pid with
        | some pid => rfl
        | none =>
          have hnone := (hturn.signalled hsignalled).unspawned (hturn.pid.trans hpid)
          rw [hnone] at hnew
          simp at hnew
      rcases hsignalled.after hstarted hpid with hone | ⟨-, hcleared⟩
      · rw [hnew, hone]
        rfl
      · rw [hcleared] at htimer
        cases htimer

theorem signals_once_limited : ∃ call : Call, call.signals = [.sigterm, .sigkill] ∧ call.signals <+: [.sigterm, .sigkill] := by
  have hsignals : ((follow (advance sampleDecode) sampleCall sampleEvents).map fun call => call.signals) = some [.sigterm, .sigkill] := by
    decide
  obtain ⟨call, hfollow, hsent⟩ := Option.map_eq_some_iff.mp hsignals
  have hsteps : Steps (running sampleDecode) sampleCall sampleEvents call := follow_steps id hfollow
  exact ⟨call, hsent, (signals_once sampleDecode ⟨sampleCall, sampleCall_starts, hsteps⟩).1⟩

/-- What a later state of a call owes to an earlier one. -/
structure Owes (call call' : Call) : Prop where
  signalled : Signalled call'
  completion : ∀ completion, call.completion = some completion → call'.completion = some completion
  requested : ∀ reason, call.requestedTermination = some reason →
    call'.requestedTermination = some reason ∧ call'.limitedStream = call.limitedStream
  failure : ∀ failure, call.failure = some failure → call'.failure = some failure

theorem steps_owe {call' : Call} (hsignalled : Signalled call) (h : Steps (running decode) call events call') : Owes call call' := by
  refine Steps.stable (fun t event u ht hstep => ?_) h ⟨hsignalled, fun _ hc => hc, fun _ hr => ⟨hr, rfl⟩, fun _ hf => hf⟩
  have hturn := (advance_turn ht.signalled hstep).1
  refine ⟨hturn.signalled ht.signalled, fun c hc => hturn.completion c (ht.completion c hc), fun reason hreason => ?_,
    fun f hf => hturn.failure f (ht.failure f hf)⟩
  obtain ⟨hrequested, hlimited⟩ := ht.requested reason hreason
  obtain ⟨hkept, hkept'⟩ := hturn.requested (by rw [hrequested]; rfl)
  exact ⟨hkept.trans hrequested, hkept'.trans hlimited⟩

/-- A call that returns has had no failure at any moment, and gives the reason of the first request
    to stop it, with its stream, and the code and signal of the child's own end. -/
theorem first_wins (decode : List UInt8 → String) {before after : List Event} {call call' : Call} {result : ProcessResult}
    (h : Run (running decode) before call) (hrest : Steps (running decode) call after call') (hresult : call'.outcome = some (.ok result)) :
    call.failure = none ∧ (∀ error, call.completion ≠ some (.spawnError error)) ∧
      (∀ reason, call.requestedTermination = some reason →
        result.terminationReason = reason ∧ result.limitedStream = call.limitedStream) ∧
      (∀ exitCode signal, call.completion = some (.closed exitCode signal) → result.exitCode = exitCode ∧ result.signal = signal) ∧
      (call'.requestedTermination = none → result.terminationReason = if result.exitCode = none then .signal else .exit) := by
  have howes := steps_owe (run_signalled h) hrest
  have hrun : Run (running decode) (before ++ after) call' := by
    obtain ⟨start, hinit, hsteps⟩ := h
    exact ⟨start, hinit, hsteps.trans hrest⟩
  obtain ⟨completion, hcompletion, hsettle, -⟩ := run_concluded hrun _ hresult
  obtain ⟨exitCode, signal, rfl, hfailure, rfl⟩ := settle_eq_ok hsettle.symm
  refine ⟨?_, fun error herror => ?_, fun reason hreason => ?_, fun code name hclosed => ?_, fun hnone => ?_⟩
  · cases hearly : call.failure with
    | none => rfl
    | some failure =>
      rw [howes.failure failure hearly] at hfailure
      cases hfailure
  · rw [howes.completion _ herror] at hcompletion
    cases hcompletion
  · obtain ⟨hrequested, hlimited⟩ := howes.requested reason hreason
    exact ⟨by rw [hrequested]; rfl, hlimited⟩
  · rw [howes.completion _ hclosed] at hcompletion
    cases hcompletion
    exact ⟨rfl, rfl⟩
  · rw [hnone]
    rfl

theorem first_wins_limited : ∃ call call' : Call, call'.outcome =
      some (.ok ⟨"git", ["status"], "abcd", "i", none, some "SIGKILL", .outputLimit, some .stdout⟩) ∧ call.failure = none ∧
    ∀ exitCode signal, call.completion = some (.closed exitCode signal) → none = exitCode ∧ some "SIGKILL" = signal := by
  obtain ⟨call', hfollow, houtcome⟩ := Option.bind_eq_some_iff.mp sampleEvents_result
  have hsteps : Steps (running sampleDecode) sampleCall sampleEvents call' := follow_steps id hfollow
  have hparts : Steps (running sampleDecode) sampleCall (sampleEvents.take 10 ++ sampleEvents.drop 10) call' := by
    rw [List.take_append_drop]
    exact hsteps
  obtain ⟨call, hbefore, hafter⟩ := hparts.split
  obtain ⟨hfailure, -, -, hclosed, -⟩ := first_wins sampleDecode ⟨sampleCall, sampleCall_starts, hbefore⟩ hafter houtcome
  exact ⟨call, call', houtcome, hfailure, hclosed⟩

end Runs

end GitCommitsPush.Runtime
