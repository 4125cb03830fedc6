/-
  GitCommitsPush.Lib.Fallible — when a computation in `Except` returns: a sequence
  returns when each of its parts does, a guard when it is passed.
-/

namespace GitCommitsPush.Lib.Fallible

variable {ε α β : Type}

instance decEqExcept [DecidableEq ε] [DecidableEq α] : DecidableEq (Except ε α)
  | .ok a, .ok b => decidable_of_iff (a = b) ⟨congrArg _, Except.ok.inj⟩
  | .error a, .error b => decidable_of_iff (a = b) ⟨congrArg _, Except.error.inj⟩
  | .ok _, .error _ => .isFalse fun h => by cases h
  | .error _, .ok _ => .isFalse fun h => by cases h

theorem bind_eq_ok {x : Except ε α} {f : α → Except ε β} {b : β} :
    (x >>= f) = .ok b ↔ ∃ a, x = .ok a ∧ f a = .ok b := by
  cases x with
  | error e =>
    constructor
    · intro h; cases h
    · rintro ⟨_, h, _⟩; cases h
  | ok a =>
    constructor
    · intro h; exact ⟨a, rfl, h⟩
    · rintro ⟨_, h, hf⟩; cases h; exact hf

theorem pure_eq_ok {a b : α} : (pure a : Except ε α) = .ok b ↔ a = b :=
  ⟨fun h => Except.ok.inj h, fun h => h ▸ rfl⟩

theorem throw_eq_ok {e : ε} {a : α} : (throw e : Except ε α) = .ok a ↔ False :=
  ⟨(fun h => by cases h), False.elim⟩

theorem ite_eq_ok {p : Prop} [Decidable p] {x y : Except ε α} {a : α} :
    (if p then x else y) = .ok a ↔ (p ∧ x = .ok a) ∨ (¬ p ∧ y = .ok a) := by
  by_cases h : p <;> simp [h]

/-- Past a guard that throws. -/
theorem guard_eq_ok {p : Prop} [Decidable p] {e : ε} {f : PUnit → Except ε α} {y : Except ε α} {a : α} :
    (if p then (throw e >>= f) else y) = .ok a ↔ ¬ p ∧ y = .ok a := by
  by_cases h : p
  · simp [h, bind_eq_ok, throw_eq_ok]
  · simp [h]

end GitCommitsPush.Lib.Fallible
