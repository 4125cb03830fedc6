/-
  GitCommitsPush.Lib.TextSearch — the occurrences of a pattern, read from left to right.

  `afterFirst` is what follows the first occurrence (`indexOf`), and `Found` says that one of
  the occurrences met, each sought after the end of the one before, has the right follower.

  Where no occurrence runs over a cut, the two pieces are searched one after the other
  (`afterFirst_append`, `found_append`). A piece without the first symbol of the pattern is
  skipped (`found_skip`).
-/

import Mathlib.Data.List.Basic

namespace GitCommitsPush.Lib.TextSearch

variable {α : Type} [DecidableEq α]

/-- The text after the first occurrence. -/
def afterFirst (pattern : List α) : List α → Option (List α)
  | [] => if pattern = [] then some [] else none
  | c :: cs => if pattern <+: c :: cs then some ((c :: cs).drop pattern.length) else afterFirst pattern cs

/-- Some occurrence the search meets has a follower that ends it. -/
inductive Found (ends : Option α → Prop) (pattern : List α) : List α → Prop
  | here {text rest : List α} : afterFirst pattern text = some rest → ends rest.head? → Found ends pattern text
  | later {text rest : List α} : afterFirst pattern text = some rest → Found ends pattern rest → Found ends pattern text

/-- No occurrence that starts in the text runs on past its end. -/
def Apart (pattern text rest : List α) : Prop :=
  ∀ before tail : List α, text = before ++ tail → tail ≠ [] → pattern <+: tail ++ rest → pattern <+: tail

variable {pattern text rest : List α} {ends : Option α → Prop}

theorem afterFirst_occurrence (h : afterFirst pattern text = some rest) : ∃ before, text = before ++ (pattern ++ rest) := by
  induction text with
  | nil =>
    rw [afterFirst] at h
    by_cases hnil : pattern = []
    · rw [if_pos hnil] at h
      cases h
      exact ⟨[], by simp [hnil]⟩
    · rw [if_neg hnil] at h
      cases h
  | cons c cs ih =>
    rw [afterFirst] at h
    by_cases hprefix : pattern <+: c :: cs
    · rw [if_pos hprefix] at h
      cases h
      obtain ⟨tail, htail⟩ := hprefix
      exact ⟨[], by rw [← htail, List.drop_left, List.nil_append]⟩
    · rw [if_neg hprefix] at h
      obtain ⟨before, hbefore⟩ := ih h
      exact ⟨c :: before, by rw [hbefore, List.cons_append]⟩

theorem afterFirst_length (hpattern : pattern ≠ []) (h : afterFirst pattern text = some rest) : rest.length < text.length := by
  obtain ⟨before, rfl⟩ := afterFirst_occurrence h
  have hlength : 0 < pattern.length := List.length_pos_iff.mpr hpattern
  simp only [List.length_append]
  omega

theorem found_occurrence (h : Found ends pattern text) :
    ∃ before rest : List α, text = before ++ (pattern ++ rest) ∧ ends rest.head? := by
  induction h with
  | here hfirst hends =>
    obtain ⟨before, hbefore⟩ := afterFirst_occurrence hfirst
    exact ⟨before, _, hbefore, hends⟩
  | later hfirst _ ih =>
    obtain ⟨before, hbefore⟩ := afterFirst_occurrence hfirst
    obtain ⟨inner, rest, hinner, hends⟩ := ih
    exact ⟨before ++ (pattern ++ inner), rest, by rw [hbefore, hinner]; simp, hends⟩

/-! ## Cutting the text -/

omit [DecidableEq α] in
/-- What starts after a beginning of the text is apart too. -/
theorem Apart.tail {before : List α} (h : Apart pattern (before ++ text) rest) : Apart pattern text rest := by
  intro inner tail htext hne hprefix
  exact h (before ++ inner) tail (by rw [htext, List.append_assoc]) hne hprefix

theorem afterFirst_append (hpattern : pattern ≠ []) (h : Apart pattern text rest) :
    afterFirst pattern (text ++ rest) = ((afterFirst pattern text).map (· ++ rest)).or (afterFirst pattern rest) := by
  induction text with
  | nil =>
    rw [afterFirst, if_neg hpattern]
    rfl
  | cons c cs ih =>
    have hcs : Apart pattern cs rest := Apart.tail (show Apart pattern ([c] ++ cs) rest from h)
    rw [List.cons_append, afterFirst, afterFirst]
    by_cases hprefix : pattern <+: c :: cs
    · obtain ⟨tail, htail⟩ := hprefix
      have hwhole : pattern <+: c :: (cs ++ rest) := ⟨tail ++ rest, by rw [← List.append_assoc, htail, List.cons_append]⟩
      rw [if_pos hwhole, if_pos ⟨tail, htail⟩, ← List.cons_append, ← htail, List.append_assoc, List.drop_left, List.drop_left]
      rfl
    · have hwhole : ¬ pattern <+: c :: (cs ++ rest) := fun hover => hprefix (h [] (c :: cs) rfl (by simp) hover)
      rw [if_neg hwhole, if_neg hprefix, ih hcs]

/-- The pieces are searched one after the other, when the first ends where an occurrence may. -/
theorem found_append (hpattern : pattern ≠ []) (h : Apart pattern text rest) (hnone : ends none) (hrest : ends rest.head?) :
    Found ends pattern (text ++ rest) ↔ Found ends pattern text ∨ Found ends pattern rest := by
  constructor
  · intro hfound
    generalize hwhole : text ++ rest = whole at hfound
    induction hfound generalizing text with
    | @here whole after hfirst hends =>
      subst hwhole
      rw [afterFirst_append hpattern h] at hfirst
      cases htext : afterFirst pattern text with
      | none =>
        rw [htext] at hfirst
        exact .inr (.here hfirst hends)
      | some inner =>
        rw [htext] at hfirst
        cases hfirst
        refine .inl (.here htext ?_)
        cases inner with
        | nil => exact hnone
        | cons c inner => exact hends
    | @later whole after hfirst hfound ih =>
      subst hwhole
      rw [afterFirst_append hpattern h] at hfirst
      cases htext : afterFirst pattern text with
      | none =>
        rw [htext] at hfirst
        exact .inr (.later hfirst hfound)
      | some inner =>
        rw [htext] at hfirst
        cases hfirst
        obtain ⟨before, hbefore⟩ := afterFirst_occurrence htext
        have hinner : Apart pattern inner rest := by
          rw [hbefore, ← List.append_assoc] at h
          exact h.tail
        rcases ih hinner rfl with hfound | hfound
        · exact .inl (.later htext hfound)
        · exact .inr hfound
  · intro hfound
    rcases hfound with hfound | hfound
    · induction hfound with
      | @here text after hfirst hends =>
        refine .here (by rw [afterFirst_append hpattern h, hfirst]; rfl) ?_
        cases after with
        | nil => exact hrest
        | cons c after => exact hends
      | @later text after hfirst _ ih =>
        obtain ⟨before, hbefore⟩ := afterFirst_occurrence hfirst
        have hafter : Apart pattern after rest := by
          rw [hbefore, ← List.append_assoc] at h
          exact h.tail
        exact .later (by rw [afterFirst_append hpattern h, hfirst]; rfl) (ih hafter)
    · induction hlength : text.length using Nat.strongRecOn generalizing text with
      | _ n ih =>
        have happend := afterFirst_append hpattern h
        cases htext : afterFirst pattern text with
        | none =>
          rw [htext] at happend
          cases hfound with
          | here hfirst hends => exact .here (happend.trans hfirst) hends
          | later hfirst hlater => exact .later (happend.trans hfirst) hlater
        | some inner =>
          rw [htext] at happend
          obtain ⟨before, hbefore⟩ := afterFirst_occurrence htext
          have hinner : Apart pattern inner rest := by
            rw [hbefore, ← List.append_assoc] at h
            exact h.tail
          have hshorter := afterFirst_length hpattern htext
          exact .later happend (ih inner.length (by omega) hinner rfl)

/-- A piece without the first symbol of the pattern is skipped. -/
theorem found_skip {first : α} {others : List α} (h : first ∉ text) :
    Found ends (first :: others) (text ++ rest) ↔ Found ends (first :: others) rest := by
  have hskip : afterFirst (first :: others) (text ++ rest) = afterFirst (first :: others) rest := by
    induction text with
    | nil => rfl
    | cons c cs ih =>
      obtain ⟨hc, hcs⟩ := not_or.mp fun hmem => h (List.mem_cons.mpr hmem)
      rw [List.cons_append, afterFirst, if_neg, ih hcs]
      intro hprefix
      exact hc (List.cons_prefix_cons.mp hprefix).1
  constructor
  · intro hfound
    cases hfound with
    | here hfirst hends => exact .here (hskip.symm.trans hfirst) hends
    | later hfirst hlater => exact .later (hskip.symm.trans hfirst) hlater
  · intro hfound
    cases hfound with
    | here hfirst hends => exact .here (hskip.trans hfirst) hends
    | later hfirst hlater => exact .later (hskip.trans hfirst) hlater

end GitCommitsPush.Lib.TextSearch
