/-
  GitCommitsPush.Publication.PlanHash — when two lists of plans have one hash
  (`hashPlans`, `core/queue-retry.ts`).

  The plans are sorted by `localeCompare` of their texts, which may call two texts equal
  that are not: such plans stay in the order they came in.
  - `hashPlans_eq_iff`: with an injective hash, two lists have one hash, and a retry finds
    the loop, exactly when they are the same plans in any order, provided that the plans
    whose texts tie come in one order in both.
  - `reordered_plans_differ`: two plans that differ in how one letter is composed hash
    differently when they are swapped.
-/

import Mathlib.Data.List.Perm.Basic
import GitCommitsPush.Lib.StableSort
import GitCommitsPush.Publication.PlanText

namespace GitCommitsPush.Publication

open GitCommitsPush.Lib.Effect
open GitCommitsPush.Lib.JsText
open GitCommitsPush.Lib.JsonText
open GitCommitsPush.Lib.StableSort

/-- A plan with its files sorted; null and absent are one `none`. -/
def canonicalForm (plan : CommitPlan) : CommitMessage × List String := (plan.commit, plan.files.mergeSort unitsLe)

/-- The same plans, in any order, each with its files in any order. -/
def SamePlans (plans others : List CommitPlan) : Prop := (plans.map canonicalForm).Perm (others.map canonicalForm)

/-- What `localeCompare` promises: the signs of a comparison and of its converse are
    opposite, and the order is transitive. Distinct strings may compare equal. -/
structure Collation (localeCompare : String → String → Int) : Prop where
  converse : ∀ left right, localeCompare left right ≤ 0 ↔ 0 ≤ localeCompare right left
  trans : ∀ a b c, localeCompare a b ≤ 0 → localeCompare b c ≤ 0 → localeCompare a c ≤ 0

def collates (localeCompare : String → String → Int) (left right : String) : Bool := localeCompare left right ≤ 0

theorem Collation.totalPreorder {localeCompare : String → String → Int} (h : Collation localeCompare) :
    TotalPreorder (collates localeCompare) where
  trans a b c hab hbc := by
    simp only [collates, decide_eq_true_eq] at hab hbc ⊢
    exact h.trans a b c hab hbc
  total a b := by
    simp only [collates, Bool.or_eq_true, decide_eq_true_eq]
    have hconverse := h.converse a b
    by_cases hab : localeCompare a b ≤ 0
    · exact .inl hab
    · right
      rw [hconverse] at hab
      omega

/-- The plans whose texts `localeCompare` calls equal come in one order in both lists. -/
def SameTies (localeCompare : String → String → Int) (plans others : List CommitPlan) : Prop :=
  ∀ x ∈ plans.map canonicalPlan, (plans.map canonicalPlan).filter (tied (collates localeCompare) x) =
    (others.map canonicalPlan).filter (tied (collates localeCompare) x)

theorem samePlans_iff {plans others : List CommitPlan} :
    SamePlans plans others ↔ (plans.map canonicalPlan).Perm (others.map canonicalPlan) := by
  have htexts : ∀ plans : List CommitPlan, plans.map canonicalPlan = (plans.map canonicalForm).map canonicalText := by
    intro plans
    rw [List.map_map]
    rfl
  rw [htexts plans, htexts others]
  constructor
  · intro h
    exact h.map canonicalText
  · intro h
    refine (List.map_perm_map_iff (f := canonicalText) ?_).mp h
    intro a b hab
    exact canonicalText_delimited.injective (congrArg String.toList hab)

variable {σ : Type} {host : Host σ}

theorem sortedPlans_texts (plans : List CommitPlan) : (sortedPlans host plans).map canonicalPlan =
    (plans.map canonicalPlan).mergeSort (collates host.localeCompare) :=
  List.map_mergeSort fun _ _ _ _ => rfl

theorem hashPlans_eq_iff_sorted (hsha : ∀ a b, host.sha256 a = host.sha256 b → a = b) (plans others : List CommitPlan) :
    hashPlans host plans = hashPlans host others ↔
      (plans.map canonicalPlan).mergeSort (collates host.localeCompare) =
        (others.map canonicalPlan).mergeSort (collates host.localeCompare) := by
  constructor
  · intro h
    have hcodes := congrArg (List.map canonicalText) (planText_codes host (hsha _ _ h))
    rw [List.map_map, List.map_map] at hcodes
    rw [← sortedPlans_texts, ← sortedPlans_texts]
    exact hcodes
  · intro h
    exact congrArg (fun texts => host.sha256 (jsonArray texts)) h

/-- One hash: the same plans, and those that tie in one order. -/
theorem hashPlans_eq_iff_ties (hsha : ∀ a b, host.sha256 a = host.sha256 b → a = b) (hcollation : Collation host.localeCompare)
    (plans others : List CommitPlan) :
    hashPlans host plans = hashPlans host others ↔ SamePlans plans others ∧ SameTies host.localeCompare plans others := by
  rw [hashPlans_eq_iff_sorted hsha, hcollation.totalPreorder.mergeSort_eq_iff, samePlans_iff]
  constructor
  · intro hties
    refine ⟨?_, fun x _ => hties x⟩
    have hsorted := hcollation.totalPreorder.mergeSort_eq_iff.mpr hties
    have hperm := List.mergeSort_perm (plans.map canonicalPlan) (collates host.localeCompare)
    rw [hsorted] at hperm
    exact hperm.symm.trans (List.mergeSort_perm _ _)
  · intro ⟨hperm, hties⟩ x
    -- a text that ties with `x` ties with the same texts as `x`
    by_cases hx : ∃ y ∈ plans.map canonicalPlan, tied (collates host.localeCompare) x y = true
    · obtain ⟨y, hy, hxy⟩ := hx
      have hsame : ∀ z, tied (collates host.localeCompare) x z = tied (collates host.localeCompare) y z :=
        hcollation.totalPreorder.tied_congr hxy
      rw [List.filter_congr (fun z _ => hsame z), List.filter_congr (fun z _ => hsame z)]
      exact hties y hy
    · have hnone : ∀ y ∈ plans.map canonicalPlan, ¬tied (collates host.localeCompare) x y = true :=
        fun y hy hxy => hx ⟨y, hy, hxy⟩
      rw [List.filter_eq_nil_iff.mpr hnone,
        List.filter_eq_nil_iff.mpr fun y hy => hnone y (hperm.mem_iff.mpr hy)]

/-! ## The loop -/

def QueueRetryResult.isLoop : QueueRetryResult → Bool
  | .loopDetected _ => true
  | .queued _ _ => false

theorem queueReplan_isLoop {repoId : String} {repoState : RepoState} {errors : List FeedbackError}
    {options : QueueRetryOptions} {settings : Settings} {systemPrompt : String} {failedPlans : List CommitPlan}
    {pendingFiles : Option (List String)} {actualDiff : String} :
    (queueReplan host repoId repoState errors options settings systemPrompt failedPlans pendingFiles actualDiff).isLoop = true ↔
      repoState.lastPlanHash = some (hashPlans host failedPlans) := by
  unfold queueReplan
  dsimp only
  split
  · rename_i h
    exact ⟨fun _ => h, fun _ => rfl⟩
  · rename_i h
    exact ⟨fun hloop => (by cases hloop), fun hlast => absurd hlast h⟩

theorem queueCommitMessageRepair_isLoop {repoId : String} {repoState : RepoState} {errors : List FeedbackError}
    {settings : Settings} {systemPrompt : String} {failedPlans : List CommitPlan} {result : QueueRetryResult}
    (h : queueCommitMessageRepair host repoId repoState errors settings systemPrompt failedPlans = .ok result) :
    result.isLoop = true ↔ repoState.lastPlanHash = some (hashPlans host failedPlans) := by
  unfold queueCommitMessageRepair at h
  split at h
  · cases h
  · dsimp only at h
    split at h
    · cases h
    · split at h
      · rename_i hlast
        cases h
        exact ⟨fun _ => hlast, fun _ => rfl⟩
      · rename_i hlast
        cases h
        exact ⟨fun hloop => (by cases hloop), fun h => absurd h hlast⟩

/-- A retry that returns finds a loop exactly on the hash of the last plans. -/
theorem queueRetry_isLoop {repoId : String} {repoState : RepoState} {errors : List FeedbackError}
    {options : QueueRetryOptions} {settings : Settings} {systemPrompt : String} {failedPlans : List CommitPlan} :
    Action.Returns (queueRetry host repoId repoState errors options settings systemPrompt failedPlans) fun result =>
      result.isLoop = true ↔ repoState.lastPlanHash = some (hashPlans host failedPlans) := by
  unfold queueRetry
  apply Action.Returns.ite
  · intro _
    exact Action.Returns.throw _
  intro _
  apply Action.Returns.ite
  · intro _
    cases hrepair : queueCommitMessageRepair host repoId repoState errors settings systemPrompt failedPlans with
    | ok result => exact Action.Returns.pure (queueCommitMessageRepair_isLoop hrepair)
    | error message => exact Action.Returns.throw _
  · intro _
    refine Action.Returns.bind (Action.Returns.any _) fun remainingDiff _ => ?_
    refine Action.Returns.bind (Action.Returns.any _) fun actualDiff _ => ?_
    exact Action.Returns.pure queueReplan_isLoop

/-- One hash, and a loop found, for the same plans in any order, if and only if the plans that
    tie come in one order in both. -/
theorem hashPlans_eq_iff (hsha : ∀ a b, host.sha256 a = host.sha256 b → a = b) (hcollation : Collation host.localeCompare)
    (plans others : List CommitPlan) :
    ((hashPlans host plans = hashPlans host others ↔ SamePlans plans others) ↔
      (SamePlans plans others → SameTies host.localeCompare plans others)) ∧
    ∀ repoId repoState errors options settings systemPrompt w w' result,
      repoState.lastPlanHash = some (hashPlans host others) →
      (queueRetry host repoId repoState errors options settings systemPrompt plans).run w = (.ok result, w') →
      ((result.isLoop = true ↔ SamePlans plans others) ↔
        (SamePlans plans others → SameTies host.localeCompare plans others)) := by
  have hhash := hashPlans_eq_iff_ties hsha hcollation plans others
  have hiff : (hashPlans host plans = hashPlans host others ↔ SamePlans plans others) ↔
      (SamePlans plans others → SameTies host.localeCompare plans others) := by
    rw [hhash]
    exact and_iff_left_iff_imp
  refine ⟨hiff, ?_⟩
  intro repoId repoState errors options settings systemPrompt w w' result hlast hrun
  have hloop : result.isLoop = true ↔ hashPlans host plans = hashPlans host others := by
    have hreturned : result.isLoop = true ↔ repoState.lastPlanHash = some (hashPlans host plans) :=
      queueRetry_isLoop w result (by rw [hrun])
    rw [hreturned, hlast, Option.some.injEq]
    exact eq_comm
  rw [hloop]
  exact hiff

/-! ### Two spellings of one letter -/

/-- U+00E9 as the letter and its accent. -/
def decompose (s : String) : List Nat := s.toList.flatMap fun c => if c = 'é' then [0x65, 0x301] else [c.toNat]

/-- A collation in which canonically equivalent strings are equal. -/
def sampleCollation (left right : String) : Int :=
  if decompose left < decompose right then -1 else if decompose right < decompose left then 1 else 0

theorem sampleCollation_le {left right : String} :
    sampleCollation left right ≤ 0 ↔ ¬decompose right < decompose left := by
  unfold sampleCollation
  by_cases h : decompose left < decompose right
  · rw [if_pos h]
    exact ⟨fun _ => List.lt_asymm h, fun _ => by decide⟩
  · rw [if_neg h]
    by_cases h' : decompose right < decompose left
    · rw [if_pos h']
      exact ⟨fun hle => absurd hle (by decide), fun hn => absurd h' hn⟩
    · rw [if_neg h']
      exact ⟨fun _ => h', fun _ => by decide⟩

theorem sampleCollation_collation : Collation sampleCollation where
  converse left right := by
    rw [sampleCollation_le]
    unfold sampleCollation
    by_cases h : decompose right < decompose left
    · rw [if_pos h]
      exact ⟨fun hn => absurd h hn, fun hle => absurd hle (by decide)⟩
    · rw [if_neg h]
      by_cases h' : decompose left < decompose right
      · rw [if_pos h']
        exact ⟨fun _ => by decide, fun _ => h⟩
      · rw [if_neg h']
        exact ⟨fun _ => by decide, fun _ => h⟩
  trans a b c := by
    simp only [sampleCollation_le, List.not_lt]
    exact List.le_trans

def sampleHashHost : Host Unit where
  sha256 text := text
  localeCompare := sampleCollation
  execSync _ _ := .throw (plainError "no subprocess")
  execFileGit _ _ _ := .throw (plainError "no subprocess")
  writeMessage _ _ := .throw (plainError "no file system")
  pathExists _ _ := .throw (plainError "no file system")
  randomUUID := .throw (plainError "no randomness")
  runTestCascade _ := .throw (plainError "no tests")

def composedPlan : CommitPlan := ⟨⟨"docs", none, "translate café", none, false⟩, ["a"]⟩

def decomposedPlan : CommitPlan := ⟨⟨"docs", none, "translate cafe\u0301", none, false⟩, ["a"]⟩

def secondPlan : CommitPlan := ⟨⟨"fix", some "core", "read the lock twice", none, false⟩, ["b"]⟩

theorem canonicalPlan_singleton (commit : CommitMessage) (file : String) :
    canonicalPlan ⟨commit, [file]⟩ = canonicalText (commit, [file]) := by
  rw [canonicalPlan_eq, List.mergeSort_singleton]

theorem sample_texts : [composedPlan, decomposedPlan, secondPlan].map canonicalPlan =
    [canonicalText (composedPlan.commit, ["a"]), canonicalText (decomposedPlan.commit, ["a"]),
      canonicalText (secondPlan.commit, ["b"])] := by
  simp only [List.map_cons, List.map_nil, composedPlan, decomposedPlan, secondPlan, canonicalPlan_singleton]

theorem reordered_plans_differ : Collation sampleHashHost.localeCompare ∧
    (∀ a b, sampleHashHost.sha256 a = sampleHashHost.sha256 b → a = b) ∧
    SamePlans [composedPlan, decomposedPlan] [decomposedPlan, composedPlan] ∧
    hashPlans sampleHashHost [composedPlan, decomposedPlan] ≠ hashPlans sampleHashHost [decomposedPlan, composedPlan] := by
  refine ⟨sampleCollation_collation, fun _ _ h => h, List.Perm.swap .., fun hhash => ?_⟩
  have hsha : ∀ a b, sampleHashHost.sha256 a = sampleHashHost.sha256 b → a = b := fun _ _ h => h
  have hties := ((hashPlans_eq_iff_ties hsha sampleCollation_collation _ _).mp hhash).2
  obtain ⟨hcomposed, hdecomposed, -⟩ := List.cons.inj sample_texts |>.imp_right List.cons.inj
  have hfilter := hties (canonicalPlan composedPlan) List.mem_cons_self
  simp only [List.map_cons, List.map_nil, hcomposed, hdecomposed] at hfilter
  revert hfilter
  decide +kernel

theorem hashPlans_eq_iff_sample :
    hashPlans sampleHashHost [composedPlan, secondPlan] = hashPlans sampleHashHost [secondPlan, composedPlan] ↔
      SamePlans [composedPlan, secondPlan] [secondPlan, composedPlan] := by
  have hsha : ∀ a b, sampleHashHost.sha256 a = sampleHashHost.sha256 b → a = b := fun _ _ h => h
  refine (hashPlans_eq_iff hsha sampleCollation_collation _ _).1.mpr fun _ => ?_
  obtain ⟨hcomposed, hrest⟩ := List.cons.inj sample_texts
  obtain ⟨hsecond, -⟩ := List.cons.inj (List.cons.inj hrest).2
  unfold SameTies
  simp only [List.map_cons, List.map_nil, hcomposed, hsecond]
  decide +kernel

end GitCommitsPush.Publication
