/-
  GitCommitsPush.Publication.MessageRepair — `mergeCommitMessageRepairs`
  (`core/commit-message-repair.ts`): the answer to a repair job.

  `merge_eq_ok_iff` says which answers are accepted and what they make of the plans: one
  item for each plan named in the errors and no other, each with the type, the scope and
  the breaking mark of the plan; messages are replaced there, files nowhere.
-/

import Mathlib.Data.List.Nodup
import GitCommitsPush.Lib.JsonTree
import GitCommitsPush.Publication.CommitMessages

namespace GitCommitsPush.Publication

open GitCommitsPush.Lib.JsonTree

/-- An item of the answer. -/
structure MessageRepair where
  planIndex : Nat
  commit : CommitMessage
  deriving DecidableEq, Repr

/-! ## `repairItemSchema` -/

def commitFieldNames : List String := ["type", "scope", "description", "body", "isBreaking"]

def parseRepairCommit (value : JsonValue) : Option CommitMessage := do
  let fields ← value.asStrictObject commitFieldNames
  let type ← (← fields.lookup "type").asString
  let scope ← JsonValue.asOptionalString (fields.lookup "scope")
  let description ← (← fields.lookup "description").asString
  let body ← JsonValue.asOptionalString (fields.lookup "body")
  let isBreaking ← (← fields.lookup "isBreaking").asBool
  return { type, scope, description, body, isBreaking }

def parseRepairItem (value : JsonValue) : Option MessageRepair := do
  let fields ← value.asStrictObject ["planIndex", "commit"]
  let planIndex ← (← fields.lookup "planIndex").asNat
  let commit ← parseRepairCommit (← fields.lookup "commit")
  return { planIndex, commit }

/-- A commit object with the fields of `commit` and no others; scope and body may be null
    or left out. -/
structure ReadsCommit (value : JsonValue) (commit : CommitMessage) : Prop where
  fields : ∃ fields, value = .object fields ∧ (∀ field ∈ fields, field.1 ∈ commitFieldNames) ∧
    fields.lookup "type" = some (.string commit.type) ∧ JsonValue.ReadsOptional (fields.lookup "scope") commit.scope ∧
    fields.lookup "description" = some (.string commit.description) ∧
    JsonValue.ReadsOptional (fields.lookup "body") commit.body ∧
    fields.lookup "isBreaking" = some (.bool commit.isBreaking)

/-- An object of an index and a commit. -/
structure ReadsRepair (value : JsonValue) (repair : MessageRepair) : Prop where
  fields : ∃ fields commit, value = .object fields ∧ (∀ field ∈ fields, field.1 = "planIndex" ∨ field.1 = "commit") ∧
    fields.lookup "planIndex" = some (.number (some repair.planIndex)) ∧ fields.lookup "commit" = some commit ∧
    ReadsCommit commit repair.commit

theorem parseRepairCommit_eq_some {value : JsonValue} {commit : CommitMessage} :
    parseRepairCommit value = some commit ↔ ReadsCommit value commit := by
  unfold parseRepairCommit
  simp only [Option.bind_eq_bind, Option.bind_eq_some_iff, Option.pure_def, Option.some.injEq,
    JsonValue.asStrictObject_eq_some, JsonValue.asString_eq_some, JsonValue.asBool_eq_some,
    JsonValue.asOptionalString_eq_some]
  constructor
  · rintro ⟨fields, ⟨hvalue, hnames⟩, _, htype, type, rfl, scope, hscope, _, hdescription, description, rfl,
      body, hbody, _, hbreaking, isBreaking, rfl, rfl⟩
    exact ⟨fields, hvalue, hnames, htype, hscope, hdescription, hbody, hbreaking⟩
  · rintro ⟨fields, hvalue, hnames, htype, hscope, hdescription, hbody, hbreaking⟩
    exact ⟨fields, ⟨hvalue, hnames⟩, _, htype, _, rfl, _, hscope, _, hdescription, _, rfl, _, hbody, _,
      hbreaking, _, rfl, rfl⟩

theorem parseRepairItem_eq_some {value : JsonValue} {repair : MessageRepair} :
    parseRepairItem value = some repair ↔ ReadsRepair value repair := by
  unfold parseRepairItem
  simp only [Option.bind_eq_bind, Option.bind_eq_some_iff, Option.pure_def, Option.some.injEq,
    JsonValue.asStrictObject_eq_some, JsonValue.asNat_eq_some, parseRepairCommit_eq_some]
  constructor
  · rintro ⟨fields, ⟨hvalue, hnames⟩, _, hindex, planIndex, rfl, value, hcommit, commit, hreads, rfl⟩
    exact ⟨fields, value, hvalue, by simpa using hnames, hindex, hcommit, hreads⟩
  · rintro ⟨fields, value, hvalue, hnames, hindex, hcommit, hreads⟩
    exact ⟨fields, ⟨hvalue, by simpa using hnames⟩, _, hindex, _, rfl, value, hcommit, _, hreads, rfl⟩

/-! ## `mergeCommitMessageRepairs` -/

inductive RepairError where
  /-- The schema does not accept the answer. -/
  | schema
  | error (message : String)
  deriving DecidableEq, Repr

/-- The distinct plans the errors name, in order. -/
def expectedIndexes (validationErrors : List FeedbackError) : List Nat :=
  (validationErrors.filterMap (·.planIndex)).eraseDups.mergeSort (· ≤ ·)

def actualIndexes (repairs : List MessageRepair) : List Nat := (repairs.map (·.planIndex)).mergeSort (· ≤ ·)

/-- The repair keeps what a repair may not change. -/
def keepsProtected (rejectedPlans : List CommitPlan) (repair : MessageRepair) : Bool :=
  match rejectedPlans[repair.planIndex]? with
  | some plan => repair.commit.type == plan.commit.type && repair.commit.scope == plan.commit.scope &&
      repair.commit.isBreaking == plan.commit.isBreaking
  | none => false

/-- The last repair of a plan. -/
def repairedMessage (repairs : List MessageRepair) (planIndex : Nat) : Option CommitMessage :=
  (repairs.reverse.find? (·.planIndex == planIndex)).map (·.commit)

def mergeRepairs (rejectedPlans : List CommitPlan) (repairs : List MessageRepair) : List CommitPlan :=
  rejectedPlans.mapIdx fun planIndex plan => ⟨(repairedMessage repairs planIndex).getD plan.commit, plan.files⟩

def parseRepairs : JsonValue → Option (List MessageRepair)
  | .array items => items.mapM parseRepairItem
  | _ => none

def mergeCommitMessageRepairs (rejectedPlans : List CommitPlan) (validationErrors : List FeedbackError)
    (response : JsonValue) : Except RepairError (List CommitPlan) :=
  match parseRepairs response with
  | none => .error .schema
  | some repairs =>
    let expected := expectedIndexes validationErrors
    let actual := actualIndexes repairs
    if actual.length ≠ expected.length ∨ (actual.zipIdx.any fun index => some index.1 != expected[index.2]?) = true then
      .error (.error "Commit-message repair response does not match the requested plan indexes.")
    else if repairs.all (keepsProtected rejectedPlans) then .ok (mergeRepairs rejectedPlans repairs)
    else .error (.error "Commit-message repair changed protected semantic fields.")

/-! ## The indexes -/

theorem nodup_eraseDups (l : List Nat) : l.eraseDups.Nodup := by
  induction hn : l.length using Nat.strongRecOn generalizing l with
  | ind n ih =>
    cases l with
    | nil => exact List.nodup_nil
    | cons a l =>
      rw [List.eraseDups_cons, List.nodup_cons]
      have hlength := List.length_filter_le (fun b => !b == a) l
      refine ⟨fun hmem => ?_, ih _ ?_ _ rfl⟩
      · rw [List.mem_eraseDups, List.mem_filter] at hmem
        simp at hmem
      · rw [← hn, List.length_cons]
        omega

/-- The positions compared one by one. -/
theorem differs_iff {actual expected : List Nat} :
    (actual.length ≠ expected.length ∨ (actual.zipIdx.any fun index => some index.1 != expected[index.2]?) = true) ↔
      actual ≠ expected := by
  constructor
  · rintro h rfl
    rcases h with h | h
    · exact h rfl
    · obtain ⟨index, hmem, hne⟩ := List.any_eq_true.mp h
      rw [List.mem_zipIdx_iff_getElem?.mp hmem] at hne
      simp at hne
  · intro hne
    by_cases hlength : actual.length = expected.length
    · right
      cases hall : actual.zipIdx.any fun index => some index.1 != expected[index.2]? with
      | true => rfl
      | false =>
        refine absurd (List.ext_getElem? fun i => ?_) hne
        cases hi : actual[i]? with
        | none =>
          rw [List.getElem?_eq_none_iff] at hi
          exact (List.getElem?_eq_none (hlength ▸ hi)).symm
        | some index =>
          have hsame := List.any_eq_false.mp hall (index, i) (List.mem_zipIdx_iff_getElem?.mpr hi)
          simpa using hsame
    · exact .inl hlength

theorem natLe_trans (a b c : Nat) : decide (a ≤ b) = true → decide (b ≤ c) = true → decide (a ≤ c) = true := by
  simp only [decide_eq_true_eq]
  exact Nat.le_trans

theorem natLe_total (a b : Nat) : (decide (a ≤ b) || decide (b ≤ a)) = true := by
  simp only [Bool.or_eq_true, decide_eq_true_eq]
  exact Nat.le_total a b

/-- The sorted lists agree when the answer names each plan of the errors once, and no other. -/
theorem indexes_eq_iff {repairs : List MessageRepair} {validationErrors : List FeedbackError} :
    actualIndexes repairs = expectedIndexes validationErrors ↔ (repairs.map (·.planIndex)).Nodup ∧
      ∀ index, index ∈ repairs.map (·.planIndex) ↔ ∃ error ∈ validationErrors, error.planIndex = some index := by
  have hactual := List.mergeSort_perm (repairs.map (·.planIndex)) (fun a b => decide (a ≤ b))
  have hexpected := List.mergeSort_perm (validationErrors.filterMap (·.planIndex)).eraseDups (fun a b => decide (a ≤ b))
  have hnamed : ∀ index, index ∈ (validationErrors.filterMap (·.planIndex)).eraseDups ↔
      ∃ error ∈ validationErrors, error.planIndex = some index := by
    intro index
    rw [List.mem_eraseDups, List.mem_filterMap]
  constructor
  · intro h
    have hperm : (repairs.map (·.planIndex)).Perm (validationErrors.filterMap (·.planIndex)).eraseDups := by
      refine hactual.symm.trans (List.Perm.trans ?_ hexpected)
      exact List.Perm.of_eq h
    exact ⟨hperm.nodup_iff.mpr (nodup_eraseDups _), fun index => by rw [hperm.mem_iff, hnamed]⟩
  · intro ⟨hnodup, hmem⟩
    have hperm : (repairs.map (·.planIndex)).Perm (validationErrors.filterMap (·.planIndex)).eraseDups :=
      (List.perm_ext_iff_of_nodup hnodup (nodup_eraseDups _)).mpr fun index => by rw [hmem, hnamed]
    have hsorted : ∀ indexes : List Nat, (indexes.mergeSort (· ≤ ·)).Pairwise (· ≤ ·) := fun indexes =>
      (List.pairwise_mergeSort natLe_trans natLe_total indexes).imp of_decide_eq_true
    exact List.Perm.eq_of_pairwise (fun a b _ _ => Nat.le_antisymm) (hsorted _) (hsorted _)
      ((hactual.trans hperm).trans hexpected.symm)

/-! ## What is accepted -/

theorem keepsProtected_iff {rejectedPlans : List CommitPlan} {repair : MessageRepair} :
    keepsProtected rejectedPlans repair = true ↔ ∃ plan, rejectedPlans[repair.planIndex]? = some plan ∧
      repair.commit.type = plan.commit.type ∧ repair.commit.scope = plan.commit.scope ∧
      repair.commit.isBreaking = plan.commit.isBreaking := by
  unfold keepsProtected
  cases rejectedPlans[repair.planIndex]? with
  | none => simp
  | some plan => simp [and_assoc]

theorem parseRepairs_eq_some {response : JsonValue} {repairs : List MessageRepair} :
    parseRepairs response = some repairs ↔ ∃ items, response = .array items ∧ items.length = repairs.length ∧
      ∀ (i : Nat) item repair, items[i]? = some item → repairs[i]? = some repair → ReadsRepair item repair := by
  cases response with
  | array items =>
    simp only [parseRepairs, mapM_eq_some_iff, parseRepairItem_eq_some, JsonValue.array.injEq]
    exact ⟨fun h => ⟨items, rfl, h⟩, fun ⟨_, heq, h⟩ => heq ▸ h⟩
  | _ => simp [parseRepairs]

theorem repairedMessage_of_mem {repairs : List MessageRepair} (hnodup : (repairs.map (·.planIndex)).Nodup)
    {repair : MessageRepair} (hmem : repair ∈ repairs) : repairedMessage repairs repair.planIndex = some repair.commit := by
  unfold repairedMessage
  cases hfind : repairs.reverse.find? (·.planIndex == repair.planIndex) with
  | none =>
    have := List.find?_eq_none.mp hfind repair (List.mem_reverse.mpr hmem)
    simp at this
  | some found =>
    have hindex : found.planIndex = repair.planIndex := by simpa using List.find?_some hfind
    have hfound : found ∈ repairs := List.mem_reverse.mp (List.mem_of_find?_eq_some hfind)
    rw [Option.map_some, List.inj_on_of_nodup_map hnodup hfound hmem hindex]

theorem repairedMessage_eq_none {repairs : List MessageRepair} {planIndex : Nat}
    (h : ∀ repair ∈ repairs, repair.planIndex ≠ planIndex) : repairedMessage repairs planIndex = none := by
  unfold repairedMessage
  rw [Option.map_eq_none_iff, List.find?_eq_none]
  intro repair hrepair
  simpa using h repair (List.mem_reverse.mp hrepair)

/-- The plans with the messages of the repairs in their places, and nothing else changed. -/
structure Merged (rejectedPlans : List CommitPlan) (repairs : List MessageRepair) (merged : List CommitPlan) : Prop where
  length : merged.length = rejectedPlans.length
  files : ∀ (i : Nat) plan result, rejectedPlans[i]? = some plan → merged[i]? = some result → result.files = plan.files
  repaired : ∀ repair ∈ repairs, ∀ result, merged[repair.planIndex]? = some result → result.commit = repair.commit
  kept : ∀ (i : Nat) plan result, (∀ repair ∈ repairs, repair.planIndex ≠ i) → rejectedPlans[i]? = some plan →
    merged[i]? = some result → result.commit = plan.commit

theorem mergeRepairs_merged {rejectedPlans : List CommitPlan} {repairs : List MessageRepair}
    (hnodup : (repairs.map (·.planIndex)).Nodup) : Merged rejectedPlans repairs (mergeRepairs rejectedPlans repairs) := by
  have hget : ∀ (i : Nat) result, (mergeRepairs rejectedPlans repairs)[i]? = some result → ∃ plan,
      rejectedPlans[i]? = some plan ∧ result = ⟨(repairedMessage repairs i).getD plan.commit, plan.files⟩ := by
    intro i result h
    rw [mergeRepairs, List.getElem?_mapIdx, Option.map_eq_some_iff] at h
    obtain ⟨plan, hplan, rfl⟩ := h
    exact ⟨plan, hplan, rfl⟩
  refine ⟨List.length_mapIdx, ?_, ?_, ?_⟩
  · intro i plan result hplan hresult
    obtain ⟨_, hplan', rfl⟩ := hget i result hresult
    cases hplan.symm.trans hplan'
    rfl
  · intro repair hmem result hresult
    obtain ⟨_, _, rfl⟩ := hget _ result hresult
    rw [repairedMessage_of_mem hnodup hmem]
    rfl
  · intro i plan result hnone hplan hresult
    obtain ⟨_, hplan', rfl⟩ := hget i result hresult
    cases hplan.symm.trans hplan'
    rw [repairedMessage_eq_none hnone]
    rfl

/-- Only one list of plans is merged so. -/
theorem Merged.unique {rejectedPlans : List CommitPlan} {repairs : List MessageRepair} {merged others : List CommitPlan}
    (h : Merged rejectedPlans repairs merged) (ho : Merged rejectedPlans repairs others) : merged = others := by
  apply List.ext_getElem?
  intro i
  cases hplan : rejectedPlans[i]? with
  | none =>
    rw [List.getElem?_eq_none_iff] at hplan
    rw [List.getElem?_eq_none (h.length ▸ hplan), List.getElem?_eq_none (ho.length ▸ hplan)]
  | some plan =>
    have hlt : i < rejectedPlans.length := (List.getElem?_eq_some_iff.mp hplan).1
    obtain ⟨result, hresult⟩ : ∃ result, merged[i]? = some result := ⟨_, List.getElem?_eq_getElem (h.length ▸ hlt)⟩
    obtain ⟨other, hother⟩ : ∃ other, others[i]? = some other := ⟨_, List.getElem?_eq_getElem (ho.length ▸ hlt)⟩
    have hfiles : result.files = other.files :=
      (h.files i plan result hplan hresult).trans (ho.files i plan other hplan hother).symm
    have hcommit : result.commit = other.commit := by
      by_cases hrepair : ∃ repair ∈ repairs, repair.planIndex = i
      · obtain ⟨repair, hmem, rfl⟩ := hrepair
        exact (h.repaired repair hmem result hresult).trans (ho.repaired repair hmem other hother).symm
      · have hnone : ∀ repair ∈ repairs, repair.planIndex ≠ i := fun repair hmem heq => hrepair ⟨repair, hmem, heq⟩
        exact (h.kept i plan result hnone hplan hresult).trans (ho.kept i plan other hnone hplan hother).symm
    obtain ⟨_, _⟩ := result
    obtain ⟨_, _⟩ := other
    cases hfiles
    cases hcommit
    rw [hresult, hother]

/-- The well-formed items of an answer: one for each plan the errors name and no other, that
    keep what a repair may not change. -/
structure CoversRejected (rejectedPlans : List CommitPlan) (validationErrors : List FeedbackError)
    (repairs : List MessageRepair) : Prop where
  nodup : (repairs.map (·.planIndex)).Nodup
  named : ∀ index, index ∈ repairs.map (·.planIndex) ↔ ∃ error ∈ validationErrors, error.planIndex = some index
  keeps : ∀ repair ∈ repairs, ∃ plan, rejectedPlans[repair.planIndex]? = some plan ∧
    repair.commit.type = plan.commit.type ∧ repair.commit.scope = plan.commit.scope ∧
    repair.commit.isBreaking = plan.commit.isBreaking

section Merge

variable {rejectedPlans : List CommitPlan} {validationErrors : List FeedbackError} {response : JsonValue}
  {merged : List CommitPlan}

theorem answers_of_merge (h : mergeCommitMessageRepairs rejectedPlans validationErrors response = .ok merged) :
    ∃ repairs, parseRepairs response = some repairs ∧ CoversRejected rejectedPlans validationErrors repairs ∧
      merged = mergeRepairs rejectedPlans repairs := by
  unfold mergeCommitMessageRepairs at h
  cases hparse : parseRepairs response with
  | none =>
    rw [hparse] at h
    cases h
  | some repairs =>
    rw [hparse] at h
    dsimp only at h
    split at h
    · cases h
    · rename_i hindexes
      rw [differs_iff, ne_eq, Classical.not_not, indexes_eq_iff] at hindexes
      split at h
      · rename_i hkeeps
        cases h
        refine ⟨repairs, rfl, ⟨hindexes.1, hindexes.2, fun repair hmem => ?_⟩, rfl⟩
        exact keepsProtected_iff.mp (List.all_eq_true.mp hkeeps repair hmem)
      · cases h

theorem merge_of_answers {repairs : List MessageRepair} (hparse : parseRepairs response = some repairs)
    (h : CoversRejected rejectedPlans validationErrors repairs) :
    mergeCommitMessageRepairs rejectedPlans validationErrors response = .ok (mergeRepairs rejectedPlans repairs) := by
  have hindexes := indexes_eq_iff.mpr ⟨h.nodup, h.named⟩
  have hall : repairs.all (keepsProtected rejectedPlans) = true :=
    List.all_eq_true.mpr fun repair hmem => keepsProtected_iff.mpr (h.keeps repair hmem)
  unfold mergeCommitMessageRepairs
  rw [hparse]
  dsimp only
  rw [if_neg (by rw [differs_iff]; exact fun hne => hne hindexes), if_pos hall]

end Merge

/-- An answer is accepted if and only if it is a list of well-formed items, one for each plan
    the errors name and no other, that keep what a repair may not change; the plans are then
    merged with it. -/
theorem merge_eq_ok_iff {rejectedPlans : List CommitPlan} {validationErrors : List FeedbackError} {response : JsonValue}
    {merged : List CommitPlan} :
    mergeCommitMessageRepairs rejectedPlans validationErrors response = .ok merged ↔
      ∃ items repairs, response = .array items ∧ items.length = repairs.length ∧
        (∀ (i : Nat) item repair, items[i]? = some item → repairs[i]? = some repair → ReadsRepair item repair) ∧
        (repairs.map (·.planIndex)).Nodup ∧
        (∀ index, index ∈ repairs.map (·.planIndex) ↔ ∃ error ∈ validationErrors, error.planIndex = some index) ∧
        (∀ repair ∈ repairs, ∃ plan, rejectedPlans[repair.planIndex]? = some plan ∧
          repair.commit.type = plan.commit.type ∧ repair.commit.scope = plan.commit.scope ∧
          repair.commit.isBreaking = plan.commit.isBreaking) ∧
        Merged rejectedPlans repairs merged := by
  constructor
  · intro h
    obtain ⟨repairs, hparse, hanswers, rfl⟩ := answers_of_merge h
    obtain ⟨items, hresponse, hlength, hreads⟩ := parseRepairs_eq_some.mp hparse
    exact ⟨items, repairs, hresponse, hlength, hreads, hanswers.nodup, hanswers.named, hanswers.keeps,
      mergeRepairs_merged hanswers.nodup⟩
  · rintro ⟨items, repairs, hresponse, hlength, hreads, hnodup, hnamed, hkeeps, hmerged⟩
    have hparse : parseRepairs response = some repairs :=
      parseRepairs_eq_some.mpr ⟨items, hresponse, hlength, hreads⟩
    rw [merge_of_answers hparse ⟨hnodup, hnamed, hkeeps⟩]
    exact congrArg Except.ok ((mergeRepairs_merged hnodup).unique hmerged)

end GitCommitsPush.Publication
