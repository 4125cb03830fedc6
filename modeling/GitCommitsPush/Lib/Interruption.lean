/-
  GitCommitsPush.Lib.Interruption — programs that can be stopped between any two changes.

  A process acts on a state by steps. A step meets what the schedule has for it (a failure,
  an answer from outside) and passes through states, one change after another, before it
  returns or throws. The log is ghost: each change with the step that made it. A process
  killed at some moment leaves the state of that moment, so what holds of every change in the
  log holds of what a crash leaves.

  `Since before P`: the changes since the log was `before`, and the state they led to,
  satisfy `P`. `perform_triple` is the one rule of the steps.
-/

import GitCommitsPush.Lib.Effect

namespace GitCommitsPush.Lib.Interruption

open GitCommitsPush.Lib.Effect

structure Process (σ κ ι : Type) where
  state : σ
  ticks : Nat
  schedule : Nat → ι
  log : List (κ × σ)

variable {σ κ ι ε ε' α β : Type}

/-- A step: its result, and the states it passes through, the last one being left. -/
def perform (step : κ) (effect : ι → σ → Except ε α × List σ) : Action (Process σ κ ι) ε α := fun w =>
  let result := effect (w.schedule w.ticks) w.state
  (result.1, { w with
    state := result.2.getLast?.getD w.state
    ticks := w.ticks + 1
    log := w.log ++ result.2.map fun state => (step, state) })

/-- `try … finally`: what the cleanup throws comes first. -/
def ensuring (x : Action σ ε α) (cleanup : Action σ ε Unit) : Action σ ε α := do
  let result ← x.outcome
  cleanup
  fun s => (result, s)

def Since (before : List (κ × σ)) (P : List (κ × σ) → σ → Prop) (w : Process σ κ ι) : Prop :=
  ∃ changes, w.log = before ++ changes ∧ P changes w.state

theorem perform_triple {before : List (κ × σ)} {P : List (κ × σ) → σ → Prop} {Q : Except ε α → List (κ × σ) → σ → Prop}
    {step : κ} {effect : ι → σ → Except ε α × List σ}
    (h : ∀ changes state i, P changes state →
      Q (effect i state).1 (changes ++ (effect i state).2.map fun state => (step, state))
        ((effect i state).2.getLast?.getD state)) :
    Action.Triple (Since before P) (perform step effect) fun r => Since before (Q r) := by
  intro w hw
  obtain ⟨changes, hlog, hstate⟩ := hw
  refine ⟨changes ++ (effect (w.schedule w.ticks) w.state).2.map fun state => (step, state), ?_, h changes w.state _ hstate⟩
  show w.log ++ _ = _
  rw [hlog, List.append_assoc]

theorem Since.mono {before : List (κ × σ)} {P Q : List (κ × σ) → σ → Prop} (h : ∀ changes state, P changes state → Q changes state)
    {w : Process σ κ ι} (hw : Since before P w) : Since before Q w := by
  obtain ⟨changes, hlog, hstate⟩ := hw
  exact ⟨changes, hlog, h changes w.state hstate⟩

end GitCommitsPush.Lib.Interruption
