/-
  GitCommitsPush.Lib.Log — programs over a world that keeps a log.

  `Logs log x Q`: from any world, `x` only appends to the log, and its outcome and the
  entries it appended satisfy `Q`. One rule for each way of building a program. A
  precondition on the world is a hypothesis of the rule's user: entries are all that is
  carried from one step to the next. `EveryEntry P` is about each entry with those before it
  and after it.
-/

import GitCommitsPush.Lib.Effect

namespace GitCommitsPush.Lib.Log

open GitCommitsPush.Lib.Effect

variable {σ ν ε ε' α β : Type}

def Logs (log : σ → List ν) (x : Action σ ε α) (Q : Except ε α → List ν → Prop) : Prop :=
  ∀ w, ∃ entries, log (x.run w).2 = log w ++ entries ∧ Q (x.run w).1 entries

/-! ## Entries with those before and after -/

/-- `P before entry after` at every entry. -/
def EveryEntry (P : List ν → ν → List ν → Prop) (entries : List ν) : Prop :=
  ∀ before entry after, entries = before ++ entry :: after → P before entry after

theorem EveryEntry.nil {P : List ν → ν → List ν → Prop} : EveryEntry P [] := by
  intro before entry after h
  exact absurd h.symm (List.append_ne_nil_of_right_ne_nil _ (List.cons_ne_nil _ _))

theorem EveryEntry.cons {P : List ν → ν → List ν → Prop} {first : ν} {rest : List ν} (h : P [] first rest)
    (hrest : EveryEntry (fun before entry after => P (first :: before) entry after) rest) : EveryEntry P (first :: rest) := by
  intro before entry after hsplit
  cases before with
  | nil =>
    cases hsplit
    exact h
  | cons b before =>
    cases hsplit
    exact hrest before entry after rfl

theorem EveryEntry.of_mem {P : List ν → ν → List ν → Prop} {entries : List ν}
    (h : ∀ entry ∈ entries, ∀ before after, P before entry after) : EveryEntry P entries := by
  intro before entry after hsplit
  exact h entry (by rw [hsplit]; exact List.mem_append_right _ List.mem_cons_self) before after

theorem EveryEntry.append {P : List ν → ν → List ν → Prop} {first rest : List ν}
    (hfirst : EveryEntry (fun before entry after => P before entry (after ++ rest)) first)
    (hrest : EveryEntry (fun before entry after => P (first ++ before) entry after) rest) : EveryEntry P (first ++ rest) := by
  intro before entry after hsplit
  rcases List.append_eq_append_iff.mp hsplit with ⟨more, rfl, hmore⟩ | ⟨more, rfl, hmore⟩
  · exact hrest more entry after hmore
  · cases more with
    | nil =>
      have h := hrest [] entry after hmore.symm
      rwa [List.append_nil, List.append_nil] at h
    | cons m more =>
      cases hmore
      exact hfirst before _ more rfl

theorem EveryEntry.snoc {P : List ν → ν → Prop} {entries : List ν} {last : ν}
    (h : EveryEntry (fun before entry _ => P before entry) entries) (hlast : P entries last) :
    EveryEntry (fun before entry _ => P before entry) (entries ++ [last]) := by
  refine EveryEntry.append h (EveryEntry.cons ?_ EveryEntry.nil)
  rw [List.append_nil]
  exact hlast

/-! ## Programs that append -/

namespace Logs

variable {log : σ → List ν} {x : Action σ ε α} {Q : Except ε α → List ν → Prop}

theorem conseq {Q' : Except ε α → List ν → Prop} (h : Logs log x Q) (hq : ∀ r entries, Q r entries → Q' r entries) :
    Logs log x Q' := by
  intro w
  obtain ⟨entries, hlog, hentries⟩ := h w
  exact ⟨entries, hlog, hq _ _ hentries⟩

theorem pure {a : α} (h : Q (.ok a) []) : Logs log (Pure.pure a : Action σ ε α) Q :=
  fun _ => ⟨[], (List.append_nil _).symm, h⟩

theorem throw {e : ε} (h : Q (.error e) []) : Logs log (Action.throw e : Action σ ε α) Q :=
  fun _ => ⟨[], (List.append_nil _).symm, h⟩

theorem bind {R : Except ε β → List ν → Prop} {f : α → Action σ ε β} (hx : Logs log x Q)
    (hok : ∀ a entries, Q (.ok a) entries → Logs log (f a) fun r more => R r (entries ++ more))
    (herr : ∀ e entries, Q (.error e) entries → R (.error e) entries) : Logs log (x >>= f) R := by
  intro w
  obtain ⟨entries, hlog, hentries⟩ := hx w
  rw [Action.run_bind]
  cases hr : x.run w with
  | mk r w' =>
    rw [hr] at hlog hentries
    cases r with
    | error e => exact ⟨entries, hlog, herr e entries hentries⟩
    | ok a =>
      obtain ⟨more, hmore, hR⟩ := hok a entries hentries w'
      exact ⟨entries ++ more, by rw [hmore, hlog, List.append_assoc], hR⟩

/-- What only changes the value returned. -/
theorem map (f : α → β) (hx : Logs log x Q) :
    Logs log (x >>= fun a => Pure.pure (f a)) fun r entries => ∃ r', Q r' entries ∧ r = r'.map f := by
  refine Logs.bind hx ?_ ?_
  · intro a entries h
    refine Logs.pure ?_
    rw [List.append_nil]
    exact ⟨.ok a, h, rfl⟩
  · intro e entries h
    exact ⟨.error e, h, rfl⟩

theorem attempt {R : Except ε' α → List ν → Prop} {handler : ε → Action σ ε' α} (hx : Logs log x Q)
    (hok : ∀ a entries, Q (.ok a) entries → R (.ok a) entries)
    (herr : ∀ e entries, Q (.error e) entries → Logs log (handler e) fun r more => R r (entries ++ more)) :
    Logs log (x.attempt handler) R := by
  intro w
  obtain ⟨entries, hlog, hentries⟩ := hx w
  rw [Action.run_attempt]
  cases hr : x.run w with
  | mk r w' =>
    rw [hr] at hlog hentries
    cases r with
    | ok a => exact ⟨entries, hlog, hok a entries hentries⟩
    | error e =>
      obtain ⟨more, hmore, hR⟩ := herr e entries hentries w'
      exact ⟨entries ++ more, by rw [hmore, hlog, List.append_assoc], hR⟩

/-- A handler that only changes the error. -/
theorem attempt_throw {R : Except ε' α → List ν → Prop} {error : ε → ε'} (hx : Logs log x Q)
    (hok : ∀ a entries, Q (.ok a) entries → R (.ok a) entries)
    (herr : ∀ e entries, Q (.error e) entries → R (.error (error e)) entries) :
    Logs log (x.attempt fun e => .throw (error e)) R := by
  refine Logs.attempt hx hok fun e entries h => Logs.throw ?_
  rw [List.append_nil]
  exact herr e entries h

/-- An outcome is a value, so what follows it always runs. -/
theorem bind_outcome {R : Except ε' β → List ν → Prop} {f : Except ε α → Action σ ε' β} (hx : Logs log x Q)
    (hf : ∀ r entries, Q r entries → Logs log (f r) fun r' more => R r' (entries ++ more)) :
    Logs log (x.outcome >>= f) R := by
  intro w
  obtain ⟨entries, hlog, hentries⟩ := hx w
  obtain ⟨more, hmore, hR⟩ := hf _ entries hentries (x.run w).2
  exact ⟨entries ++ more, by rw [← List.append_assoc, ← hlog]; exact hmore, hR⟩

theorem ite {c : Prop} [Decidable c] {y : Action σ ε α} (hx : c → Logs log x Q) (hy : ¬ c → Logs log y Q) :
    Logs log (if c then x else y) Q := by
  split
  · exact hx (by assumption)
  · exact hy (by assumption)

/-- Entries of one kind extend any log that has had only these since some point. -/
theorem keeps {p : ν → Prop} (h : Logs log x fun _ entries => ∀ e ∈ entries, p e) (before : List ν) :
    Action.Keeps (fun w => ∃ entries, log w = before ++ entries ∧ ∀ e ∈ entries, p e) x := by
  intro w hw
  obtain ⟨entries, hlog, hentries⟩ := hw
  obtain ⟨more, hmore, hp⟩ := h w
  refine ⟨entries ++ more, by rw [hmore, hlog, List.append_assoc], ?_⟩
  intro e he
  rcases List.mem_append.mp he with he | he
  · exact hentries e he
  · exact hp e he

/-- What is kept whatever the log was before holds of the entries. -/
theorem of_keeps {p : ν → Prop}
    (h : ∀ before, Action.Keeps (fun w => ∃ entries, log w = before ++ entries ∧ ∀ e ∈ entries, p e) x) :
    Logs log x fun _ entries => ∀ e ∈ entries, p e :=
  fun w => h (log w) w ⟨[], (List.append_nil _).symm, fun e he => by cases he⟩

end Logs

/-! ## Programs among the entries -/

/-- Some run of `x` returned `a` and appended a part of the entries. -/
def Performed (log : σ → List ν) (x : Action σ ε α) (a : α) (entries : List ν) : Prop :=
  ∃ w part, part <:+: entries ∧ (x.run w).1 = .ok a ∧ log (x.run w).2 = log w ++ part

theorem Performed.mono {log : σ → List ν} {x : Action σ ε α} {a : α} {entries more : List ν}
    (h : Performed log x a entries) (hpart : entries <:+: more) : Performed log x a more := by
  obtain ⟨w, part, hsub, hrun, hlog⟩ := h
  exact ⟨w, part, hsub.trans hpart, hrun, hlog⟩

theorem Logs.performed {log : σ → List ν} {x : Action σ ε α} {Q : Except ε α → List ν → Prop} (h : Logs log x Q) :
    Logs log x fun r entries => Q r entries ∧ ∀ a, r = .ok a → Performed log x a entries := by
  intro w
  obtain ⟨entries, hlog, hentries⟩ := h w
  exact ⟨entries, hlog, hentries, fun a ha => ⟨w, entries, List.infix_refl _, ha, hlog⟩⟩

end GitCommitsPush.Lib.Log
