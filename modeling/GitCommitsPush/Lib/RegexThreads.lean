/-
  GitCommitsPush.Lib.RegexThreads — what a regular expression of `Lib.Regex` can match.

  `Consumes run p q` says that `q` is the place `run` further on than `p`. The members of
  `threads` are described by what they consume: one lemma for each way of building an
  expression (`mem_threads_one`, `mem_threads_seq`, `mem_threads_rep`, `mem_threads_optional`,
  …), and what a group or a quantifier does to the captures (`capture_group`,
  `capture_forget`). An expression that begins with `^` is tried at the start alone
  (`exec_atStart`).
-/

import Mathlib.Data.List.Forall2
import GitCommitsPush.Lib.Regex

namespace GitCommitsPush.Lib.Regex

structure Consumes (run : List Nat) (p q : Place) : Prop where
  after : p.after = run ++ q.after
  before : q.before = run.reverse ++ p.before

theorem Consumes.refl (p : Place) : Consumes [] p p := ⟨rfl, rfl⟩

theorem Consumes.trans {a b : List Nat} {p q r : Place} (h₁ : Consumes a p q) (h₂ : Consumes b q r) :
    Consumes (a ++ b) p r :=
  ⟨by rw [h₁.after, h₂.after, List.append_assoc], by rw [h₂.before, h₁.before, List.reverse_append, List.append_assoc]⟩

theorem Consumes.nil_eq {p q : Place} (h : Consumes [] p q) : q = p := by
  obtain ⟨before, after⟩ := q
  have hafter : p.after = after := h.after
  have hbefore : before = p.before := h.before
  rw [← hafter, hbefore]

theorem Consumes.between {run : List Nat} {p q : Place} (h : Consumes run p q) : between p q = run := by
  unfold Regex.between
  rw [h.after, List.length_append, Nat.add_sub_cancel]
  exact List.take_left

/-- Some place is there for every text that comes next. -/
theorem consumes_of_after {run rest : List Nat} {p : Place} (h : p.after = run ++ rest) :
    Consumes run p ⟨run.reverse ++ p.before, rest⟩ := ⟨h, rfl⟩

/-! ## Threads -/

variable {t t' : Thread}

theorem mem_threads_one {p : Nat → Bool} :
    t' ∈ threads (.one p) t ↔ ∃ c, p c = true ∧ Consumes [c] t.1 t'.1 ∧ t'.2 = t.2 := by
  obtain ⟨⟨before, after⟩, captures⟩ := t
  obtain ⟨⟨before', after'⟩, captures'⟩ := t'
  cases after with
  | nil =>
    constructor
    · intro h
      cases h
    · intro ⟨c, _, hc, _⟩
      have := hc.after
      simp at this
  | cons d rest =>
    unfold threads
    dsimp only
    constructor
    · intro h
      split at h
      · rename_i hd
        cases List.mem_singleton.mp h
        exact ⟨d, hd, ⟨rfl, rfl⟩, rfl⟩
      · cases h
    · intro ⟨c, hp, hc, hcaptures⟩
      have hafter : d :: rest = [c] ++ after' := hc.after
      have hbefore : before' = [c].reverse ++ before := hc.before
      cases hafter
      cases hcaptures
      rw [if_pos hp, hbefore]
      exact List.mem_singleton_self _

theorem mem_threads_seq {a b : Re} : t' ∈ threads (.seq a b) t ↔ ∃ u ∈ threads a t, t' ∈ threads b u := by
  show t' ∈ (threads a t).flatMap (threads b) ↔ _
  exact List.mem_flatMap

theorem mem_threads_alt {a b : Re} : t' ∈ threads (.alt a b) t ↔ t' ∈ threads a t ∨ t' ∈ threads b t := by
  show t' ∈ threads a t ++ threads b t ↔ _
  exact List.mem_append

theorem mem_threads_atStart : t' ∈ threads .atStart t ↔ t.1.before = [] ∧ t' = t := by
  unfold threads
  split
  · rename_i h
    simp [h]
  · rename_i h
    simp [h]

theorem mem_threads_atEnd : t' ∈ threads .atEnd t ↔ t.1.after = [] ∧ t' = t := by
  unfold threads
  split
  · rename_i h
    simp [h]
  · rename_i h
    simp [h]

theorem mem_threads_wordBoundary {isWord : Nat → Bool} : t' ∈ threads (.wordBoundary isWord) t ↔
    t.1.before.head?.any isWord ≠ t.1.after.head?.any isWord ∧ t' = t := by
  unfold threads
  split
  · rename_i h
    simpa using fun _ => h
  · rename_i h
    simpa using fun hne => absurd hne (by simpa using h)

theorem mem_threads_group {n : Nat} {r : Re} : t' ∈ threads (.group n r) t ↔
    ∃ u ∈ threads r t, t' = (u.1, (n, between t.1 u.1) :: u.2.filter (·.1 != n)) := by
  show t' ∈ (threads r t).map _ ↔ _
  rw [List.mem_map]
  exact ⟨fun ⟨u, hu, h⟩ => ⟨u, hu, h.symm⟩, fun ⟨u, hu, h⟩ => ⟨u, hu, h.symm⟩⟩

theorem forget_nil (t : Thread) : forget [] t = t := by
  obtain ⟨place, captures⟩ := t
  simp [forget]

/-- A class repeated without bound: the induction is on the fuel, which covers what is left. -/
theorem mem_repeatThreads {p : Nat → Bool} {greedy : Bool} (fuel min : Nat) (t t' : Thread)
    (hfuel : t.1.after.length < fuel) :
    t' ∈ repeatThreads (fun t => threads (.one p) (forget [] t)) greedy fuel min none t ↔
      ∃ run, (∀ c ∈ run, p c = true) ∧ min ≤ run.length ∧ Consumes run t.1 t'.1 ∧ t'.2 = t.2 := by
  induction fuel generalizing min t with
  | zero => exact absurd hfuel (Nat.not_lt_zero _)
  | succ fuel ih =>
    -- one symbol, and the rest of the run
    have hfurther : t' ∈ (threads (.one p) (forget [] t)).flatMap (fun u =>
        if min = 0 ∧ u.1.after.length = t.1.after.length then []
        else repeatThreads (fun t => threads (.one p) (forget [] t)) greedy fuel (min - 1) (none.map (· - 1)) u) ↔
        ∃ c run, p c = true ∧ (∀ d ∈ run, p d = true) ∧ min ≤ run.length + 1 ∧ Consumes (c :: run) t.1 t'.1 ∧ t'.2 = t.2 := by
      rw [List.mem_flatMap]
      constructor
      · intro ⟨u, hu, hmem⟩
        rw [forget_nil, mem_threads_one] at hu
        obtain ⟨c, hc, hconsumes, hcaptures⟩ := hu
        split at hmem
        · cases hmem
        · have hlength := congrArg List.length hconsumes.after
          simp only [List.length_append, List.length_cons, List.length_nil] at hlength
          obtain ⟨run, hrun, hmin, hrest, hsame⟩ := (ih (min - 1) u (by omega)).mp hmem
          exact ⟨c, run, hc, hrun, by omega, hconsumes.trans hrest, hsame.trans hcaptures⟩
      · intro ⟨c, run, hc, hrun, hmin, hconsumes, hcaptures⟩
        have hafter : t.1.after = [c] ++ (run ++ t'.1.after) := hconsumes.after
        have hfirst := consumes_of_after hafter
        refine ⟨(⟨[c].reverse ++ t.1.before, run ++ t'.1.after⟩, t.2), ?_, ?_⟩
        · rw [forget_nil, mem_threads_one]
          exact ⟨c, hc, hfirst, rfl⟩
        · have hlength := congrArg List.length hafter
          simp only [List.length_append, List.length_cons, List.length_nil] at hlength
          rw [if_neg (by simp only [List.length_append]; omega)]
          refine (ih (min - 1) _ (by simp only [List.length_append]; omega)).mpr ⟨run, hrun, by omega, ⟨rfl, ?_⟩, hcaptures⟩
          rw [hconsumes.before]
          simp
    unfold repeatThreads
    rw [if_neg (by simp)]
    dsimp only
    -- no symbol at all is a run once the minimum is met
    have hstop : t' = t ↔ ∃ run, run = ([] : List Nat) ∧ Consumes run t.1 t'.1 ∧ t'.2 = t.2 := by
      constructor
      · intro h
        exact ⟨[], rfl, h ▸ Consumes.refl _, h ▸ rfl⟩
      · intro ⟨run, hrun, hconsumes, hcaptures⟩
        subst hrun
        exact Prod.ext hconsumes.nil_eq hcaptures
    by_cases hmin : min > 0
    · rw [if_pos hmin, hfurther]
      constructor
      · intro ⟨c, run, hc, hrun, hle, hconsumes, hcaptures⟩
        exact ⟨c :: run, by simpa using ⟨hc, hrun⟩, hle, hconsumes, hcaptures⟩
      · intro ⟨run, hrun, hle, hconsumes, hcaptures⟩
        cases run with
        | nil => exact absurd hle (by simp only [List.length_nil]; omega)
        | cons c run =>
          obtain ⟨hc, hrun⟩ := List.forall_mem_cons.mp hrun
          exact ⟨c, run, hc, hrun, hle, hconsumes, hcaptures⟩
    · have hzero : min = 0 := by omega
      have hall : (t' ∈ (threads (.one p) (forget [] t)).flatMap (fun u =>
          if min = 0 ∧ u.1.after.length = t.1.after.length then []
          else repeatThreads (fun t => threads (.one p) (forget [] t)) greedy fuel (min - 1) (none.map (· - 1)) u) ∨ t' = t) ↔
          ∃ run, (∀ c ∈ run, p c = true) ∧ min ≤ run.length ∧ Consumes run t.1 t'.1 ∧ t'.2 = t.2 := by
        rw [hfurther, hstop]
        constructor
        · rintro (⟨c, run, hc, hrun, _, hconsumes, hcaptures⟩ | ⟨run, rfl, hconsumes, hcaptures⟩)
          · exact ⟨c :: run, by simpa using ⟨hc, hrun⟩, by omega, hconsumes, hcaptures⟩
          · exact ⟨[], by simp, by omega, hconsumes, hcaptures⟩
        · intro ⟨run, hrun, _, hconsumes, hcaptures⟩
          cases run with
          | nil => exact .inr ⟨[], rfl, hconsumes, hcaptures⟩
          | cons c run =>
            obtain ⟨hc, hrun⟩ := List.forall_mem_cons.mp hrun
            exact .inl ⟨c, run, hc, hrun, by omega, hconsumes, hcaptures⟩
      rw [if_neg hmin, ← hall]
      cases greedy with
      | true =>
        rw [if_pos rfl, List.mem_append, List.mem_singleton]
      | false =>
        rw [if_neg (by simp), List.mem_cons]
        exact or_comm

theorem mem_threads_rep {p : Nat → Bool} {min : Nat} {greedy : Bool} : t' ∈ threads (.rep (.one p) min none greedy) t ↔
    ∃ run, (∀ c ∈ run, p c = true) ∧ min ≤ run.length ∧ Consumes run t.1 t'.1 ∧ t'.2 = t.2 := by
  show t' ∈ repeatThreads (fun t => threads (.one p) (forget [] t)) greedy (min + t.1.after.length + 1) min none t ↔ _
  exact mem_repeatThreads _ min t t' (by omega)

/-- An optional part that cannot match nothing. -/
theorem mem_threads_optional {r : Re} (hr : ∀ u u', u' ∈ threads r u → u'.1.after.length < u.1.after.length) :
    t' ∈ threads (optional r) t ↔ t' ∈ threads r (forget r.groups t) ∨ t' = t := by
  have hstep : ∀ u ∈ threads r (forget r.groups t), u.1.after.length < t.1.after.length := fun u hu => hr (forget r.groups t) u hu
  show t' ∈ repeatThreads (fun t => threads r (forget r.groups t)) true (0 + t.1.after.length + 1) 0 (some 1) t ↔ _
  unfold repeatThreads
  rw [if_neg (by simp), if_neg (by simp), if_pos rfl]
  rw [List.mem_append, List.mem_singleton, List.mem_flatMap]
  refine or_congr_left ⟨fun ⟨u, hu, hmem⟩ => ?_, fun h => ⟨t', h, ?_⟩⟩
  · have hlt := hstep u hu
    rw [if_neg (by omega)] at hmem
    obtain ⟨fuel, hfuel⟩ : ∃ fuel, 0 + t.1.after.length = fuel + 1 := ⟨t.1.after.length - 1, by omega⟩
    rw [hfuel] at hmem
    unfold repeatThreads at hmem
    rw [if_pos (by rfl), List.mem_singleton] at hmem
    exact hmem ▸ hu
  · have hlt := hstep t' h
    rw [if_neg (by omega)]
    obtain ⟨fuel, hfuel⟩ : ∃ fuel, 0 + t.1.after.length = fuel + 1 := ⟨t.1.after.length - 1, by omega⟩
    rw [hfuel]
    unfold repeatThreads
    rw [if_pos (by rfl)]
    exact List.mem_singleton_self _

/-- A text, one class for each of its symbols. -/
theorem mem_threads_text {ps : List (Nat → Bool)} : t' ∈ threads (seqAll (ps.map .one)) t ↔
    ∃ run, List.Forall₂ (fun p c => p c = true) ps run ∧ Consumes run t.1 t'.1 ∧ t'.2 = t.2 := by
  induction ps generalizing t with
  | nil =>
    show t' ∈ [t] ↔ _
    rw [List.mem_singleton]
    constructor
    · intro h
      exact ⟨[], .nil, h ▸ Consumes.refl _, h ▸ rfl⟩
    · intro ⟨run, hrun, hconsumes, hcaptures⟩
      cases hrun
      exact Prod.ext hconsumes.nil_eq hcaptures
  | cons p ps ih =>
    -- the last class is not followed by an empty rest
    have hcons : t' ∈ threads (seqAll ((p :: ps).map .one)) t ↔
        ∃ u ∈ threads (.one p) t, t' ∈ threads (seqAll (ps.map .one)) u := by
      cases ps with
      | nil =>
        show t' ∈ threads (.one p) t ↔ ∃ u ∈ threads (.one p) t, t' ∈ [u]
        simp
      | cons q qs => exact mem_threads_seq
    rw [hcons]
    constructor
    · intro ⟨u, hu, hmem⟩
      obtain ⟨c, hc, hfirst, hsame⟩ := mem_threads_one.mp hu
      obtain ⟨run, hrun, hrest, hcaptures⟩ := ih.mp hmem
      exact ⟨c :: run, .cons hc hrun, hfirst.trans hrest, hcaptures.trans hsame⟩
    · intro ⟨run, hrun, hconsumes, hcaptures⟩
      cases hrun with
      | @cons _ c _ run hc hrun =>
        have hafter : t.1.after = [c] ++ (run ++ t'.1.after) := hconsumes.after
        refine ⟨(⟨[c].reverse ++ t.1.before, run ++ t'.1.after⟩, t.2), mem_threads_one.mpr ⟨c, hc, consumes_of_after hafter, rfl⟩,
          ih.mpr ⟨run, hrun, ⟨rfl, ?_⟩, hcaptures⟩⟩
        rw [hconsumes.before]
        simp

theorem mem_threads_altAll {rs : List Re} (hne : rs ≠ []) : t' ∈ threads (altAll rs) t ↔ ∃ r ∈ rs, t' ∈ threads r t := by
  induction rs with
  | nil => exact absurd rfl hne
  | cons r rs ih =>
    cases rs with
    | nil => simp [altAll]
    | cons q qs =>
      show t' ∈ threads (.alt r (altAll (q :: qs))) t ↔ _
      rw [mem_threads_alt, ih (by simp)]
      simp

/-! ## Captures -/

theorem capture_group {n k : Nat} {place : Place} {run : List Nat} {captures : Captures} :
    capture k (place, (n, run) :: captures.filter (·.1 != n)) = if n = k then some run else capture k (place, captures) := by
  unfold capture
  by_cases hk : n = k
  · rw [if_pos hk]
    simp [hk]
  · rw [if_neg hk]
    have hnk : ((n, run).1 == k) = false := by simpa using hk
    rw [List.find?_cons, hnk]
    dsimp only
    rw [List.find?_filter]
    congr 2
    funext c
    by_cases hc : c.1 = k
    · have hcn : c.1 ≠ n := fun h => hk (h.symm.trans hc)
      simp [hc, Ne.symm hk]
    · simp [hc]

theorem capture_forget {names : List Nat} {k : Nat} (hk : k ∉ names) (t : Thread) :
    capture k (forget names t) = capture k t := by
  obtain ⟨place, captures⟩ := t
  unfold capture forget
  dsimp only
  rw [List.find?_filter]
  congr 2
  funext c
  by_cases hc : c.1 = k
  · simp [hc, hk]
  · simp [hc]

theorem capture_of_captures {k : Nat} (h : t'.2 = t.2) : capture k t' = capture k t := by
  unfold capture
  rw [h]

/-! ## Anchored expressions -/

theorem placesFrom_ne_start {before after : List Nat} (hbefore : before ≠ []) :
    ∀ p ∈ placesFrom before after, p.before ≠ [] := by
  induction after generalizing before with
  | nil =>
    intro p hp
    cases List.mem_singleton.mp hp
    exact hbefore
  | cons c rest ih =>
    intro p hp
    rcases List.mem_cons.mp hp with rfl | hp
    · exact hbefore
    · exact ih (by simp) p hp

theorem exec_atStart {r : Re} (hr : ∀ t : Thread, t.1.before ≠ [] → threads r t = []) (input : List Nat) :
    exec r input = ((threads r (⟨[], input⟩, [])).head?).map (⟨[], input⟩, ·) := by
  have hlater : ∀ ps : List Place, (∀ p ∈ ps, p.before ≠ []) →
      ps.findSome? (fun p => ((threads r (p, [])).head?).map (p, ·)) = none := by
    intro ps hps
    rw [List.findSome?_eq_none_iff]
    intro p hp
    rw [hr (p, []) (hps p hp)]
    rfl
  unfold exec execFrom
  cases input with
  | nil =>
    show List.findSome? _ [(⟨[], []⟩ : Place)] = _
    rw [List.findSome?_cons]
    cases (threads r (⟨[], []⟩, [])).head? <;> rfl
  | cons c rest =>
    show List.findSome? _ ((⟨[], c :: rest⟩ : Place) :: placesFrom [c] rest) = _
    rw [List.findSome?_cons, hlater _ (placesFrom_ne_start (by simp))]
    cases (threads r (⟨[], c :: rest⟩, [])).head? <;> rfl

/-- The first thread is one of the threads. -/
theorem exec_eq_some_of_unique {r : Re} (hr : ∀ t : Thread, t.1.before ≠ [] → threads r t = []) {input : List Nat}
    {P : Thread → Prop} (hall : ∀ t ∈ threads r (⟨[], input⟩, []), P t) (hsome : threads r (⟨[], input⟩, []) ≠ []) :
    ∃ t, exec r input = some (⟨[], input⟩, t) ∧ P t := by
  rw [exec_atStart hr]
  cases hthreads : threads r (⟨[], input⟩, []) with
  | nil => exact absurd hthreads hsome
  | cons t ts =>
    refine ⟨t, rfl, hall t ?_⟩
    rw [hthreads]
    exact List.mem_cons_self

theorem test_eq_true_iff {r : Re} (hr : ∀ t : Thread, t.1.before ≠ [] → threads r t = []) {input : List Nat} :
    test r input = true ↔ ∃ t, t ∈ threads r (⟨[], input⟩, []) := by
  unfold test
  rw [exec_atStart hr]
  cases hthreads : threads r (⟨[], input⟩, []) with
  | nil => simp
  | cons t ts =>
    refine ⟨fun _ => ⟨t, List.mem_cons_self⟩, fun _ => rfl⟩

end GitCommitsPush.Lib.Regex
