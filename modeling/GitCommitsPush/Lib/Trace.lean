/-
  GitCommitsPush.Lib.Trace — programs with a ghost trace of events.

  `note` appends an event that no program reads; `lifted` is a program of the world below,
  which notes nothing. The trace is a log: `Emits x Q` is what `Logs` says of it, with
  rules for the two programs that are new; `EmitsOnly` keeps to one kind of event.
-/

import GitCommitsPush.Lib.Log

namespace GitCommitsPush.Lib.Trace

open GitCommitsPush.Lib.Effect
open GitCommitsPush.Lib.Log (Logs)

structure Traced (σ ν : Type) where
  world : σ
  trace : List ν

variable {σ ν ε ε' α β : Type}

def lifted (x : Action σ ε α) : Action (Traced σ ν) ε α := fun w =>
  let r := x.run w.world
  (r.1, ⟨r.2, w.trace⟩)

theorem run_lifted (x : Action σ ε α) (w : Traced σ ν) :
    (lifted x).run w = ((x.run w.world).1, ⟨(x.run w.world).2, w.trace⟩) := rfl

theorem lifted_eq_ok {x : Action σ ε α} {w w' : Traced σ ν} {a : α} (h : (lifted x).run w = (.ok a, w')) :
    x.run w.world = (.ok a, w'.world) := by
  rw [run_lifted, Prod.mk.injEq] at h
  exact Prod.ext h.1 (congrArg Traced.world h.2)

theorem lifted_returns {x : Action σ ε α} {P : α → Prop} (h : Action.Returns x P) :
    Action.Returns (lifted x : Action (Traced σ ν) ε α) P := fun w => h w.world

theorem lifted_trace {x : Action σ ε α} {w w' : Traced σ ν} {r : Except ε α} (h : (lifted x).run w = (r, w')) :
    w'.trace = w.trace := by
  rw [run_lifted] at h
  exact congrArg (·.2.trace) h.symm

theorem lifted_bind (x : Action σ ε α) (f : α → Action σ ε β) :
    (lifted (x >>= f) : Action (Traced σ ν) ε β) = (lifted x >>= fun a => lifted (f a)) := by
  funext w
  show (lifted (x >>= f)).run w = (lifted x >>= fun a => lifted (f a)).run w
  rw [Action.run_bind, run_lifted, run_lifted, Action.run_bind]
  cases x.run w.world with
  | mk r s => cases r <;> rfl

def note (event : ν) : Action (Traced σ ν) ε Unit := fun w => (.ok (), { w with trace := w.trace ++ [event] })

/-- The log of the world below is what the lifted program makes it. -/
theorem lifted_logs {log : σ → List ν} {ν' : Type} {x : Action σ ε α} {Q : Except ε α → List ν → Prop} (h : Logs log x Q) :
    Logs (fun w : Traced σ ν' => log w.world) (lifted x) Q := fun w => h w.world

theorem note_logs {log : σ → List ν} {ν' : Type} (event : ν') :
    Logs (fun w : Traced σ ν' => log w.world) (note event : Action (Traced σ ν') ε Unit) fun _ entries => entries = [] :=
  fun _ => ⟨[], (List.append_nil _).symm, rfl⟩

/-- What `x` notes, and how it ends. -/
def Emits (x : Action (Traced σ ν) ε α) (Q : Except ε α → List ν → Prop) : Prop := Logs Traced.trace x Q

namespace Emits

variable {x : Action (Traced σ ν) ε α} {Q : Except ε α → List ν → Prop}

theorem conseq {Q' : Except ε α → List ν → Prop} (h : Emits x Q) (hq : ∀ r events, Q r events → Q' r events) :
    Emits x Q' := Logs.conseq h hq

theorem pure {a : α} (h : Q (.ok a) []) : Emits (Pure.pure a : Action (Traced σ ν) ε α) Q := Logs.pure h

theorem throw {e : ε} (h : Q (.error e) []) : Emits (Action.throw e : Action (Traced σ ν) ε α) Q := Logs.throw h

theorem lifted {x : Action σ ε α} (h : ∀ w, Q (x.run w).1 []) : Emits (Trace.lifted x) Q :=
  fun w => ⟨[], (List.append_nil _).symm, h w.world⟩

theorem note {event : ν} {Q : Except ε Unit → List ν → Prop} (h : Q (.ok ()) [event]) :
    Emits (Trace.note event : Action (Traced σ ν) ε Unit) Q := fun _ => ⟨[event], rfl, h⟩

theorem bind {R : Except ε β → List ν → Prop} {f : α → Action (Traced σ ν) ε β} (hx : Emits x Q)
    (hok : ∀ a events, Q (.ok a) events → Emits (f a) fun r more => R r (events ++ more))
    (herr : ∀ e events, Q (.error e) events → R (.error e) events) : Emits (x >>= f) R := Logs.bind hx hok herr

/-- After a program of the world below. -/
theorem bind_lifted {R : Except ε β → List ν → Prop} {x : Action σ ε α} {f : α → Action (Traced σ ν) ε β}
    (hok : ∀ a, Emits (f a) R) (herr : ∀ e, R (.error e) []) : Emits (Trace.lifted x >>= f) R := by
  refine Emits.bind (Emits.lifted (Q := fun _ events => events = []) fun _ => rfl) ?_ ?_
  · intro a events hevents
    subst hevents
    exact hok a
  · intro e events hevents
    subst hevents
    exact herr e

theorem bind_note {R : Except ε β → List ν → Prop} {event : ν} {f : Unit → Action (Traced σ ν) ε β}
    (h : Emits (f ()) fun r more => R r (event :: more)) : Emits (Trace.note event >>= f) R := by
  refine Emits.bind (Emits.note (Q := fun r events => r = .ok () ∧ events = [event]) ⟨rfl, rfl⟩) ?_ ?_
  · intro _ events hevents
    rw [hevents.2]
    exact h
  · intro e events hevents
    cases hevents.1

theorem bind_outcome {R : Except ε' β → List ν → Prop} {f : Except ε α → Action (Traced σ ν) ε' β} (hx : Emits x Q)
    (hf : ∀ r events, Q r events → Emits (f r) fun r' more => R r' (events ++ more)) : Emits (x.outcome >>= f) R :=
  Logs.bind_outcome hx hf

theorem attempt {R : Except ε' α → List ν → Prop} {handler : ε → Action (Traced σ ν) ε' α} (hx : Emits x Q)
    (hok : ∀ a events, Q (.ok a) events → R (.ok a) events)
    (herr : ∀ e events, Q (.error e) events → Emits (handler e) fun r more => R r (events ++ more)) :
    Emits (x.attempt handler) R := Logs.attempt hx hok herr

theorem ite {c : Prop} [Decidable c] {y : Action (Traced σ ν) ε α} (hx : c → Emits x Q) (hy : ¬ c → Emits y Q) :
    Emits (if c then x else y) Q := Logs.ite hx hy

end Emits

/-! ## Programs that note one kind of event -/

/-- Every event `x` notes satisfies `p`. -/
def EmitsOnly (x : Action (Traced σ ν) ε α) (p : ν → Prop) : Prop := Emits x fun _ events => ∀ e ∈ events, p e

namespace EmitsOnly

variable {p : ν → Prop}

theorem pure (a : α) : EmitsOnly (Pure.pure a : Action (Traced σ ν) ε α) p := Emits.pure fun e he => by cases he

theorem throw (e : ε) : EmitsOnly (Action.throw e : Action (Traced σ ν) ε α) p := Emits.throw fun e he => by cases he

theorem lifted (x : Action σ ε α) : EmitsOnly (Trace.lifted x : Action (Traced σ ν) ε α) p :=
  Emits.lifted fun _ e he => by cases he

theorem note {event : ν} (h : p event) : EmitsOnly (Trace.note event : Action (Traced σ ν) ε Unit) p :=
  Emits.note fun e he => by cases List.mem_singleton.mp he; exact h

theorem bind {x : Action (Traced σ ν) ε α} {f : α → Action (Traced σ ν) ε β} (hx : EmitsOnly x p)
    (hf : ∀ a, EmitsOnly (f a) p) : EmitsOnly (x >>= f) p := by
  refine Emits.bind hx (fun a events h => (hf a).conseq ?_) fun _ _ h => h
  intro r more hmore e he
  exact (List.mem_append.mp he).elim (h e) (hmore e)

theorem ite {c : Prop} [Decidable c] {x y : Action (Traced σ ν) ε α} (hx : c → EmitsOnly x p)
    (hy : ¬ c → EmitsOnly y p) : EmitsOnly (if c then x else y) p := Emits.ite hx hy

end EmitsOnly

end GitCommitsPush.Lib.Trace
