/-
  GitCommitsPush.Lib.Effect — programs that act on a world and may throw.

  An exception keeps the world as it was when it was thrown, so a handler runs in that
  world: `attempt` is `try … catch`. `Triple P x Q` says that from a world satisfying
  `P` the outcome of `x`, returned or thrown, satisfies `Q`. One rule for each way of
  building an action; `Keeps` is the triple of an invariant.
-/

namespace GitCommitsPush.Lib.Effect

/-- A program over worlds `σ` that returns `α` or throws `ε`. -/
def Action (σ ε α : Type) := σ → Except ε α × σ

namespace Action

variable {σ ε ε' α β : Type}

def run (x : Action σ ε α) (s : σ) : Except ε α × σ := x s

instance : Monad (Action σ ε) where
  pure a := fun s => (.ok a, s)
  bind x f := fun s => match x s with
    | (.ok a, s') => f a s'
    | (.error e, s') => (.error e, s')

def throw (e : ε) : Action σ ε α := fun s => (.error e, s)

/-- What `x` did, as a value: nothing is thrown. -/
def outcome (x : Action σ ε α) : Action σ ε' (Except ε α) := fun s => (.ok (x s).1, (x s).2)

/-- `try x catch handler`. -/
def attempt (x : Action σ ε α) (handler : ε → Action σ ε' α) : Action σ ε' α := fun s => match x s with
  | (.ok a, s') => (.ok a, s')
  | (.error e, s') => handler e s'

@[simp] theorem run_pure (a : α) (s : σ) : (pure a : Action σ ε α).run s = (.ok a, s) := rfl

@[simp] theorem run_throw (e : ε) (s : σ) : (throw e : Action σ ε α).run s = (.error e, s) := rfl

theorem run_bind (x : Action σ ε α) (f : α → Action σ ε β) (s : σ) :
    (x >>= f).run s = match x.run s with
      | (.ok a, s') => (f a).run s'
      | (.error e, s') => (.error e, s') := rfl

/-- A sequence returns when both its parts do. -/
theorem run_bind_eq_ok {x : Action σ ε α} {f : α → Action σ ε β} {s s' : σ} {b : β}
    (h : (x >>= f).run s = (.ok b, s')) : ∃ a t, x.run s = (.ok a, t) ∧ (f a).run t = (.ok b, s') := by
  rw [run_bind] at h
  cases hx : x.run s with
  | mk r t =>
    rw [hx] at h
    cases r with
    | ok a => exact ⟨a, t, rfl, h⟩
    | error e => cases h

theorem run_attempt (x : Action σ ε α) (handler : ε → Action σ ε' α) (s : σ) :
    (x.attempt handler).run s = match x.run s with
      | (.ok a, s') => (.ok a, s')
      | (.error e, s') => (handler e).run s' := rfl

@[simp] theorem run_outcome (x : Action σ ε α) (s : σ) :
    (x.outcome : Action σ ε' _).run s = (.ok (x.run s).1, (x.run s).2) := rfl

/-! ## Triples -/

def Triple (P : σ → Prop) (x : Action σ ε α) (Q : Except ε α → σ → Prop) : Prop :=
  ∀ s, P s → Q (x.run s).1 (x.run s).2

variable {P : σ → Prop} {Q : Except ε α → σ → Prop}

theorem Triple.conseq {P' : σ → Prop} {Q' : Except ε α → σ → Prop} {x : Action σ ε α} (h : Triple P x Q)
    (hp : ∀ s, P' s → P s) (hq : ∀ r s, Q r s → Q' r s) : Triple P' x Q' :=
  fun s hs => hq _ _ (h s (hp s hs))

theorem Triple.trivial {x : Action σ ε α} : Triple P x fun _ _ => True := fun _ _ => True.intro

/-- A fact of the precondition that is not about the world. -/
theorem Triple.given {C : Prop} {x : Action σ ε α} (h : C → Triple P x Q) : Triple (fun s => P s ∧ C) x Q :=
  fun s hs => h hs.2 s hs.1

theorem Triple.pure {a : α} (h : ∀ s, P s → Q (.ok a) s) : Triple P (Pure.pure a) Q := h

theorem Triple.throw {e : ε} (h : ∀ s, P s → Q (.error e) s) : Triple P (Action.throw e : Action σ ε α) Q := h

theorem Triple.bind {R : Except ε β → σ → Prop} {x : Action σ ε α} {f : α → Action σ ε β} (hx : Triple P x Q)
    (hok : ∀ a, Triple (Q (.ok a)) (f a) R) (herr : ∀ e s, Q (.error e) s → R (.error e) s) :
    Triple P (x >>= f) R := by
  intro s hs
  have h := hx s hs
  rw [run_bind]
  cases hr : x.run s with
  | mk r s' =>
    rw [hr] at h
    cases r with
    | ok a => exact hok a s' h
    | error e => exact herr e s' h

theorem Triple.attempt {R : Except ε' α → σ → Prop} {x : Action σ ε α} {handler : ε → Action σ ε' α}
    (hx : Triple P x Q) (hok : ∀ a s, Q (.ok a) s → R (.ok a) s)
    (herr : ∀ e, Triple (Q (.error e)) (handler e) R) : Triple P (x.attempt handler) R := by
  intro s hs
  have h := hx s hs
  rw [run_attempt]
  cases hr : x.run s with
  | mk r s' =>
    rw [hr] at h
    cases r with
    | ok a => exact hok a s' h
    | error e => exact herr e s' h

theorem Triple.outcome {R : Except ε' (Except ε α) → σ → Prop} {x : Action σ ε α} (hx : Triple P x Q)
    (h : ∀ r s, Q r s → R (.ok r) s) : Triple P x.outcome R :=
  fun s hs => h _ _ (hx s hs)

/-- An outcome is a value, so what follows it always runs. -/
theorem Triple.bind_outcome {R : Except ε' β → σ → Prop} {x : Action σ ε α} {f : Except ε α → Action σ ε' β}
    (hx : Triple P x Q) (hf : ∀ r, Triple (Q r) (f r) R) : Triple P (x.outcome >>= f) R :=
  fun s hs => hf _ _ (hx s hs)

theorem Triple.ite {c : Prop} [Decidable c] {x y : Action σ ε α} (hx : c → Triple P x Q) (hy : ¬ c → Triple P y Q) :
    Triple P (if c then x else y) Q := by
  split
  · exact hx (by assumption)
  · exact hy (by assumption)

/-! ## Returned values -/

/-- `P` holds of every value `x` returns, from any world. -/
def Returns (x : Action σ ε α) (P : α → Prop) : Prop := ∀ s a, (x.run s).1 = .ok a → P a

theorem Returns.any (x : Action σ ε α) : Returns x fun _ => True := fun _ _ _ => True.intro

theorem Returns.pure {P : α → Prop} {a : α} (h : P a) : Returns (Pure.pure a : Action σ ε α) P := by
  intro s b hb
  cases hb
  exact h

theorem Returns.throw {P : α → Prop} (e : ε) : Returns (Action.throw e : Action σ ε α) P := by
  intro s a h
  cases h

theorem Returns.bind {P : β → Prop} {Q : α → Prop} {x : Action σ ε α} {f : α → Action σ ε β} (hx : Returns x Q)
    (hf : ∀ a, Q a → Returns (f a) P) : Returns (x >>= f) P := by
  intro s b hb
  have h := hx s
  rw [run_bind] at hb
  cases hr : x.run s with
  | mk r s' =>
    rw [hr] at h hb
    cases r with
    | ok a => exact hf a (h a rfl) s' b hb
    | error e => cases hb

theorem Returns.attempt {P : α → Prop} {x : Action σ ε α} {handler : ε → Action σ ε' α} (hx : Returns x P)
    (hh : ∀ e, Returns (handler e) P) : Returns (x.attempt handler) P := by
  intro s a h
  have hx := hx s
  rw [run_attempt] at h
  cases hr : x.run s with
  | mk r s' =>
    rw [hr] at h hx
    cases r with
    | ok b =>
      cases h
      exact hx a rfl
    | error e => exact hh e s' a h

theorem Returns.ite {P : α → Prop} {c : Prop} [Decidable c] {x y : Action σ ε α} (hx : c → Returns x P)
    (hy : ¬ c → Returns y P) : Returns (if c then x else y) P := by
  split
  · exact hx (by assumption)
  · exact hy (by assumption)

/-! ## Invariants -/

/-- The invariant `I` holds however `x` ends. -/
def Keeps (I : σ → Prop) (x : Action σ ε α) : Prop := Triple I x fun _ s => I s

variable {I : σ → Prop}

theorem Keeps.pure (a : α) : Keeps I (Pure.pure a : Action σ ε α) := fun _ hs => hs

theorem Keeps.throw (e : ε) : Keeps I (Action.throw e : Action σ ε α) := fun _ hs => hs

theorem Keeps.bind {x : Action σ ε α} {f : α → Action σ ε β} (hx : Keeps I x) (hf : ∀ a, Keeps I (f a)) :
    Keeps I (x >>= f) := Triple.bind hx hf fun _ _ h => h

theorem Keeps.attempt {x : Action σ ε α} {handler : ε → Action σ ε' α} (hx : Keeps I x)
    (hh : ∀ e, Keeps I (handler e)) : Keeps I (x.attempt handler) := Triple.attempt hx (fun _ _ h => h) hh

theorem Keeps.ite {c : Prop} [Decidable c] {x y : Action σ ε α} (hx : c → Keeps I x) (hy : ¬ c → Keeps I y) :
    Keeps I (if c then x else y) := Triple.ite hx hy

theorem Keeps.outcome {x : Action σ ε α} (hx : Keeps I x) : Keeps I (x.outcome : Action σ ε' _) :=
  Triple.outcome hx fun _ _ h => h

end Action

end GitCommitsPush.Lib.Effect
