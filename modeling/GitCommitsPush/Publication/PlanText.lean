/-
  GitCommitsPush.Publication.PlanText — what the hash of a list of plans tells.

  The text hashed gives the messages back: two lists of plans with one text have the same
  messages, so the messages of both are valid or neither's are (`planText_valid`).
-/

import GitCommitsPush.Lib.JsonText
import GitCommitsPush.Publication.CommitMessages

namespace GitCommitsPush.Publication

open GitCommitsPush.Lib.JsText
open GitCommitsPush.Lib.JsonText

/-! ## One plan -/

/-- `canonicalPlan`, of a message and its files in order. -/
def canonicalText (plan : CommitMessage × List String) : String :=
  "\x7b\"commit\":\x7b\"type\":" ++ jsonString plan.1.type ++ ",\"scope\":" ++ jsonNullable plan.1.scope ++
    ",\"description\":" ++ jsonString plan.1.description ++ ",\"body\":" ++ jsonNullable plan.1.body ++
    ",\"isBreaking\":" ++ (if plan.1.isBreaking then "true" else "false") ++ "\x7d,\"files\":" ++
    jsonArray (plan.2.map jsonString) ++ "\x7d"

theorem canonicalPlan_eq (plan : CommitPlan) :
    canonicalPlan plan = canonicalText (plan.commit, plan.files.mergeSort unitsLe) := rfl

theorem flag_delimited : Delimited fun flag : Bool => (if flag then "true" else "false").toList := by
  intro a b x y h
  cases a <;> cases b
  · exact ⟨rfl, List.append_cancel_left h⟩
  · cases (List.cons.inj h).1
  · cases (List.cons.inj h).1
  · exact ⟨rfl, List.append_cancel_left h⟩

theorem files_delimited : Delimited fun files : List String => (jsonArray (files.map jsonString)).toList := by
  apply jsonArray_delimited jsonString_delimited
  intro s
  obtain ⟨cs, h⟩ := jsonString_head s
  exact ⟨'"', cs, h, by decide⟩

/-- The fields of a plan, each after a text of its own. -/
def fieldsText (t₁ t₂ t₃ t₄ t₅ t₆ t₇ : List Char) (plan : CommitMessage × List String) : List Char :=
  t₁ ++ ((jsonString plan.1.type).toList ++ (t₂ ++ ((jsonNullable plan.1.scope).toList ++
    (t₃ ++ ((jsonString plan.1.description).toList ++ (t₄ ++ ((jsonNullable plan.1.body).toList ++
      (t₅ ++ ((if plan.1.isBreaking then "true" else "false").toList ++
        (t₆ ++ ((jsonArray (plan.2.map jsonString)).toList ++ t₇)))))))))))

theorem fieldsText_delimited (t₁ t₂ t₃ t₄ t₅ t₆ t₇ : List Char) : Delimited (fieldsText t₁ t₂ t₃ t₄ t₅ t₆ t₇) := by
  intro p q x y h
  obtain ⟨⟨type, scope, description, body, isBreaking⟩, files⟩ := p
  obtain ⟨⟨type', scope', description', body', isBreaking'⟩, files'⟩ := q
  simp only [fieldsText, List.append_assoc] at h
  obtain ⟨htype, h⟩ := jsonString_delimited _ _ _ _ (List.append_cancel_left h)
  obtain ⟨hscope, h⟩ := jsonNullable_delimited _ _ _ _ (List.append_cancel_left h)
  obtain ⟨hdescription, h⟩ := jsonString_delimited _ _ _ _ (List.append_cancel_left h)
  obtain ⟨hbody, h⟩ := jsonNullable_delimited _ _ _ _ (List.append_cancel_left h)
  obtain ⟨hbreaking, h⟩ := flag_delimited _ _ _ _ (List.append_cancel_left h)
  obtain ⟨hfiles, h⟩ := files_delimited _ _ _ _ (List.append_cancel_left h)
  refine ⟨?_, List.append_cancel_left h⟩
  rw [htype, hscope, hdescription, hbody, hbreaking, hfiles]

theorem canonicalText_fields : ∃ t t₂ t₃ t₄ t₅ t₆ t₇, ∀ plan,
    (canonicalText plan).toList = fieldsText ('\x7b' :: t) t₂ t₃ t₄ t₅ t₆ t₇ plan := by
  refine ⟨"\"commit\":\x7b\"type\":".toList, ",\"scope\":".toList, ",\"description\":".toList, ",\"body\":".toList,
    ",\"isBreaking\":".toList, "\x7d,\"files\":".toList, "\x7d".toList, fun plan => ?_⟩
  have hfront : "\x7b\"commit\":\x7b\"type\":".toList = '\x7b' :: "\"commit\":\x7b\"type\":".toList := by decide
  unfold canonicalText fieldsText
  simp only [String.toList_append, List.append_assoc]
  rw [hfront]

theorem canonicalText_delimited : Delimited fun plan => (canonicalText plan).toList := by
  obtain ⟨t, t₂, t₃, t₄, t₅, t₆, t₇, htext⟩ := canonicalText_fields
  intro p q x y h
  simp only [htext] at h
  exact fieldsText_delimited _ _ _ _ _ _ _ p q x y h

theorem canonicalText_head (plan : CommitMessage × List String) : ∃ c cs, (canonicalText plan).toList = c :: cs ∧ c ≠ ']' := by
  obtain ⟨t, t₂, t₃, t₄, t₅, t₆, t₇, htext⟩ := canonicalText_fields
  refine ⟨'\x7b', _, htext plan, by decide⟩

/-! ## The plans hashed -/

/-- The text `hashPlans` hashes. -/
def planText {σ : Type} (host : Host σ) (plans : List CommitPlan) : String :=
  jsonArray ((plans.map canonicalPlan).mergeSort fun left right => host.localeCompare left right ≤ 0)

/-- The messages of the plans are valid. -/
def ValidMessages (plans : List CommitPlan) : Prop :=
  ∀ plan ∈ plans, validateCommitMessage (formatConventionalCommit plan.commit) = []

theorem collectFrom_isEmpty (planIndex : Nat) (plans : List CommitPlan) :
    (collectFrom planIndex plans).isEmpty = true ↔ ValidMessages plans := by
  induction plans generalizing planIndex with
  | nil => exact ⟨fun _ plan h => (List.not_mem_nil h).elim, fun _ => rfl⟩
  | cons plan plans ih =>
    have ih := ih (planIndex + 1)
    rw [List.isEmpty_iff] at ih ⊢
    simp only [collectFrom, List.append_eq_nil_iff, List.map_eq_nil_iff, ih, ValidMessages, List.forall_mem_cons]

section Hashed

variable {σ : Type} (host : Host σ)

/-- The plans in the order their texts are hashed. -/
def sortedPlans (plans : List CommitPlan) : List CommitPlan :=
  plans.mergeSort fun left right => host.localeCompare (canonicalPlan left) (canonicalPlan right) ≤ 0

theorem planText_eq (plans : List CommitPlan) :
    planText host plans = jsonArray (((sortedPlans host plans).map fun plan =>
      (plan.commit, plan.files.mergeSort unitsLe)).map canonicalText) := by
  have hsort := List.map_mergeSort (f := canonicalPlan) (l := plans)
    (r := fun left right => host.localeCompare (canonicalPlan left) (canonicalPlan right) ≤ 0)
    (s := fun left right => host.localeCompare left right ≤ 0) fun _ _ _ _ => rfl
  rw [planText, ← hsort, List.map_map]
  rfl

/-- One text gives the same plans, in the order they are hashed. -/
theorem planText_codes {plans others : List CommitPlan} (h : planText host plans = planText host others) :
    (sortedPlans host plans).map (fun plan => (plan.commit, plan.files.mergeSort unitsLe)) =
      (sortedPlans host others).map fun plan => (plan.commit, plan.files.mergeSort unitsLe) := by
  rw [planText_eq, planText_eq] at h
  exact (jsonArray_delimited canonicalText_delimited canonicalText_head).injective (congrArg String.toList h)

theorem planText_messages {plans others : List CommitPlan} (h : planText host plans = planText host others)
    (hvalid : ValidMessages others) : ValidMessages plans := by
  have hcodes := planText_codes host h
  intro plan hplan
  have hmem : (plan.commit, plan.files.mergeSort unitsLe) ∈
      (sortedPlans host plans).map fun plan => (plan.commit, plan.files.mergeSort unitsLe) :=
    List.mem_map_of_mem (List.mem_mergeSort.mpr hplan)
  rw [hcodes] at hmem
  obtain ⟨other, hother, hcommit⟩ := List.mem_map.mp hmem
  rw [← (Prod.mk.inj hcommit).1]
  exact hvalid other (List.mem_mergeSort.mp hother)

/-- Plans of one text are both valid, or neither. -/
theorem planText_valid {plans others : List CommitPlan} (h : planText host plans = planText host others) :
    ValidMessages plans ↔ ValidMessages others :=
  ⟨planText_messages host h.symm, planText_messages host h⟩

end Hashed

end GitCommitsPush.Publication
