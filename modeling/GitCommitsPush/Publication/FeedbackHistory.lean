/-
  GitCommitsPush.Publication.FeedbackHistory — what a retry shows of the attempts before it.

  `appendFeedbackHistory` caps the number of entries, the length of each and the length of
  all of them joined. The first cap drops the oldest entries; the last keeps the beginning
  of the text, the oldest ones, and the newest is what it cuts. Both lengths are counted in
  UTF-16 units, though their names say bytes. `keepsNewest_iff` says when the newest attempt
  is shown within the budget; `newest_dropped` is a history that leaves nothing of it.
-/

import GitCommitsPush.Publication.QueueRetry

namespace GitCommitsPush.Publication

open GitCommitsPush.Lib.JsText

/-! ## UTF-8 sizes -/

def utf8Length (cs : List Char) : Nat := (cs.flatMap utf8Bytes).length

def isAscii (c : Char) : Bool := c.toNat < 0x80

theorem utf8Length_cons (c : Char) (cs : List Char) : utf8Length (c :: cs) = (utf8Bytes c).length + utf8Length cs := by
  unfold utf8Length
  rw [List.flatMap_cons, List.length_append]

theorem utf8Length_append (a b : List Char) : utf8Length (a ++ b) = utf8Length a + utf8Length b := by
  unfold utf8Length
  rw [List.flatMap_append, List.length_append]

/-- A character has as many bytes as units when it is ASCII, and more when it is not. -/
theorem utf8Bytes_units (c : Char) : (codeUnits c).length ≤ (utf8Bytes c).length ∧
    ((utf8Bytes c).length = (codeUnits c).length ↔ isAscii c = true) := by
  unfold codeUnits utf8Bytes isAscii
  dsimp only
  rw [decide_eq_true_eq]
  by_cases h7 : c.toNat < 0x80
  · rw [if_pos h7, if_pos (by omega)]
    exact ⟨Nat.le_refl 1, fun _ => h7, fun _ => rfl⟩
  rw [if_neg h7]
  by_cases h11 : c.toNat < 0x800
  · rw [if_pos h11, if_pos (by omega)]
    simp only [List.length_cons, List.length_nil]
    omega
  rw [if_neg h11]
  by_cases h16 : c.toNat < 0x10000
  · rw [if_pos h16, if_pos h16]
    simp only [List.length_cons, List.length_nil]
    omega
  · rw [if_neg h16, if_neg h16]
    simp only [List.length_cons, List.length_nil]
    omega

/-- The first `n` units of a text have `n` bytes when all are ASCII, and more when not. -/
theorem takeUnits_bytes (n : Nat) (cs : List Char) (h : n ≤ (cs.flatMap codeUnits).length) :
    n ≤ utf8Length (takeUnits n cs) ∧ (utf8Length (takeUnits n cs) = n ↔ (takeUnits n cs).all isAscii = true) := by
  induction cs generalizing n with
  | nil =>
    have hn : n = 0 := by
      rw [List.flatMap_nil, List.length_nil] at h
      omega
    subst hn
    exact ⟨Nat.le_refl 0, by decide⟩
  | cons c cs ih =>
    rw [List.flatMap_cons, List.length_append] at h
    unfold takeUnits
    dsimp only
    by_cases hfits : (codeUnits c).length ≤ n
    · obtain ⟨hle, hiff⟩ := ih (n - (codeUnits c).length) (by omega)
      obtain ⟨hcle, hciff⟩ := utf8Bytes_units c
      rw [if_pos hfits, utf8Length_cons, List.all_cons, Bool.and_eq_true, ← hiff, ← hciff]
      omega
    · rw [if_neg hfits]
      by_cases hn : n = 0
      · rw [if_pos hn, hn]
        exact ⟨Nat.le_refl 0, by decide⟩
      · have hlength : (codeUnits c).length ≤ 2 := by
          unfold codeUnits
          split
          · exact Nat.le_succ 1
          · exact Nat.le_refl 2
        have hone : n = 1 := by omega
        rw [if_neg hn, hone]
        decide

/-- The first `n` units of a text that has them are `n` units. -/
theorem takeUnits_units (n : Nat) (cs : List Char) (h : n ≤ (cs.flatMap codeUnits).length) :
    ((takeUnits n cs).flatMap codeUnits).length = n := by
  induction cs generalizing n with
  | nil =>
    rw [List.flatMap_nil, List.length_nil] at h
    unfold takeUnits
    rw [List.flatMap_nil, List.length_nil]
    omega
  | cons c cs ih =>
    rw [List.flatMap_cons, List.length_append] at h
    unfold takeUnits
    dsimp only
    by_cases hfits : (codeUnits c).length ≤ n
    · have hrest := ih (n - (codeUnits c).length) (by omega)
      rw [if_pos hfits, List.flatMap_cons, List.length_append, hrest]
      omega
    · have hlength : (codeUnits c).length ≤ 2 := by
        unfold codeUnits
        split
        · exact Nat.le_succ 1
        · exact Nat.le_refl 2
      by_cases hn : n = 0
      · rw [if_neg hfits, if_pos hn, hn]
        rfl
      · have hone : n = 1 := by omega
        rw [if_neg hfits, if_neg hn, hone]
        decide

theorem takeUnits_append (n : Nat) (a b : List Char) (h : n ≤ (a.flatMap codeUnits).length) :
    takeUnits n (a ++ b) = takeUnits n a := by
  induction a generalizing n with
  | nil =>
    have hn : n = 0 := by simpa using h
    subst hn
    cases b with
    | nil => rfl
    | cons c cs =>
      have hc : ¬(codeUnits c).length ≤ 0 := by
        unfold codeUnits
        split
        · simp
        · simp
      rw [List.nil_append, takeUnits, takeUnits, if_neg hc, if_pos rfl]
  | cons c cs ih =>
    rw [List.flatMap_cons, List.length_append] at h
    simp only [List.cons_append, takeUnits]
    by_cases hfits : (codeUnits c).length ≤ n
    · rw [if_pos hfits, if_pos hfits, ih _ (by omega)]
    · rw [if_neg hfits, if_neg hfits]

theorem mem_takeUnits {n : Nat} {cs : List Char} {d : Char} (h : d ∈ takeUnits n cs) :
    d ∈ cs ∨ d = Char.ofNat 0xFFFD := by
  induction cs generalizing n with
  | nil => cases h
  | cons c cs ih =>
    unfold takeUnits at h
    dsimp only at h
    by_cases hfits : (codeUnits c).length ≤ n
    · rw [if_pos hfits] at h
      rcases List.mem_cons.mp h with h | h
      · exact .inl (h ▸ List.mem_cons_self)
      · exact (ih h).imp_left (List.mem_cons_of_mem c)
    · rw [if_neg hfits] at h
      by_cases hn : n = 0
      · rw [if_pos hn] at h
        cases h
      · rw [if_neg hn] at h
        exact .inr (List.mem_singleton.mp h)

/-! ## The history -/

/-- The histories that repeated calls build. -/
inductive ReachableHistory : List String → Prop
  | nil : ReachableHistory []
  | append {history : List String} (failedPlans : List CommitPlan) : ReachableHistory history →
      ReachableHistory (appendFeedbackHistory history failedPlans).nextHistory

/-- The entry of an attempt, as it is capped. -/
def feedbackEntry (failedPlans : List CommitPlan) : String :=
  truncated MAX_FEEDBACK_ENTRY_BYTES (formatFailedPlans failedPlans)

def truncationMarker : String := "\n[truncated]"

/-- The history stays short and ends with the new entry; what the planner is shown holds
    that entry and is within the budget of bytes. -/
structure KeepsNewest (history : List String) (failedPlans : List CommitPlan) : Prop where
  length : (appendFeedbackHistory history failedPlans).nextHistory.length ≤ MAX_FEEDBACK_HISTORY
  newest : (appendFeedbackHistory history failedPlans).nextHistory.getLast? = some (feedbackEntry failedPlans)
  shown : (feedbackEntry failedPlans).toList <:+: (appendFeedbackHistory history failedPlans).previousCommit.toList
  bytes : utf8Length (appendFeedbackHistory history failedPlans).previousCommit.toList ≤
    MAX_FEEDBACK_TOTAL_BYTES + utf8Length truncationMarker.toList

def attemptSeparator : String := "\n\n--- NEXT ATTEMPT ---\n\n"

/-- The entries of the attempts still told of, the newest last, as one text. -/
def attemptsText (history : List String) (failedPlans : List CommitPlan) : String :=
  joinStrings attemptSeparator
    (history.drop (history.length + 1 - MAX_FEEDBACK_HISTORY) ++ [feedbackEntry failedPlans])

/-- The text is within both budgets, that of units and that of bytes; or it is not, and its
    first units are ASCII and hold the newest entry all the same, because an older attempt
    had it too or because the cut and its marker spell it. -/
def FitsBudget (history : List String) (failedPlans : List CommitPlan) : Prop :=
  (length16 (attemptsText history failedPlans) ≤ MAX_FEEDBACK_TOTAL_BYTES ∧
    utf8Length (attemptsText history failedPlans).toList ≤ MAX_FEEDBACK_TOTAL_BYTES + utf8Length truncationMarker.toList) ∨
  (MAX_FEEDBACK_TOTAL_BYTES < length16 (attemptsText history failedPlans) ∧
    (takeUnits MAX_FEEDBACK_TOTAL_BYTES (attemptsText history failedPlans).toList).all isAscii = true ∧
    (feedbackEntry failedPlans).toList <:+:
      takeUnits MAX_FEEDBACK_TOTAL_BYTES (attemptsText history failedPlans).toList ++ truncationMarker.toList)

section Append

variable (history : List String) (failedPlans : List CommitPlan)

theorem reachable_length {history : List String} (h : ReachableHistory history) : history.length ≤ MAX_FEEDBACK_HISTORY := by
  cases h with
  | nil => exact Nat.zero_le _
  | append failedPlans _ =>
    simp only [appendFeedbackHistory, List.length_drop]
    omega

/-- What is dropped for the new entry is old. -/
theorem nextHistory_eq :
    (appendFeedbackHistory history failedPlans).nextHistory =
      history.drop (history.length + 1 - MAX_FEEDBACK_HISTORY) ++ [feedbackEntry failedPlans] := by
  have hmax : 1 ≤ MAX_FEEDBACK_HISTORY := by decide
  unfold appendFeedbackHistory
  dsimp only
  rw [List.length_append, List.length_singleton, List.drop_append_of_le_length (by omega)]
  rfl

theorem previousCommit_eq :
    (appendFeedbackHistory history failedPlans).previousCommit =
      truncated MAX_FEEDBACK_TOTAL_BYTES (attemptsText history failedPlans) := by
  unfold attemptsText
  rw [← nextHistory_eq history failedPlans]
  unfold appendFeedbackHistory attemptSeparator
  dsimp only

theorem joinWith_concat (sep : List Char) {parts : List (List Char)} (p : List Char) (h : parts ≠ []) :
    joinWith sep (parts ++ [p]) = joinWith sep parts ++ (sep ++ p) := by
  induction parts with
  | nil => exact absurd rfl h
  | cons q parts ih =>
    cases parts with
    | nil => exact List.append_assoc q sep p
    | cons r parts =>
      have hrest := ih (by simp)
      simp only [List.cons_append, joinWith] at hrest ⊢
      rw [hrest]
      simp only [List.append_assoc]

theorem entry_suffix : (feedbackEntry failedPlans).toList <:+ (attemptsText history failedPlans).toList := by
  unfold attemptsText joinStrings
  rw [String.toList_ofList, List.map_append, List.map_singleton]
  by_cases hnil : (history.drop (history.length + 1 - MAX_FEEDBACK_HISTORY)).map String.toList = []
  · rw [hnil]
    exact List.suffix_refl _
  · rw [joinWith_concat _ _ hnil, ← List.append_assoc]
    exact List.suffix_append _ _

/-- Exactly when the newest attempt is shown within the budget. -/
theorem keepsNewest_iff {history : List String} (h : ReachableHistory history) (failedPlans : List CommitPlan) :
    KeepsNewest history failedPlans ↔ FitsBudget history failedPlans := by
  have hlength := reachable_length h
  have hnext := nextHistory_eq history failedPlans
  have hprevious := previousCommit_eq history failedPlans
  have hfits : KeepsNewest history failedPlans ↔
      (feedbackEntry failedPlans).toList <:+: (truncated MAX_FEEDBACK_TOTAL_BYTES (attemptsText history failedPlans)).toList ∧
      utf8Length (truncated MAX_FEEDBACK_TOTAL_BYTES (attemptsText history failedPlans)).toList ≤
        MAX_FEEDBACK_TOTAL_BYTES + utf8Length truncationMarker.toList := by
    rw [← hprevious]
    refine ⟨fun hk => ⟨hk.shown, hk.bytes⟩, fun ⟨hshown, hbytes⟩ => ⟨?_, ?_, hshown, hbytes⟩⟩
    · have hmax : 1 ≤ MAX_FEEDBACK_HISTORY := by decide
      rw [hnext, List.length_append, List.length_drop, List.length_singleton]
      omega
    · rw [hnext, List.getLast?_concat]
  rw [hfits]
  unfold FitsBudget truncated
  by_cases hunits : length16 (attemptsText history failedPlans) ≤ MAX_FEEDBACK_TOTAL_BYTES
  · rw [if_neg (by omega)]
    constructor
    · intro hboth
      exact .inl ⟨hunits, hboth.2⟩
    · rintro (hbytes | hover)
      · exact ⟨(entry_suffix history failedPlans).isInfix, hbytes.2⟩
      · exact absurd hover.1 (by omega)
  · rw [if_pos (by omega)]
    obtain ⟨hle, hiff⟩ := takeUnits_bytes MAX_FEEDBACK_TOTAL_BYTES (attemptsText history failedPlans).toList
      (by unfold length16 at hunits; omega)
    have htext : (slice16 MAX_FEEDBACK_TOTAL_BYTES (attemptsText history failedPlans) ++ "\n[truncated]").toList =
        takeUnits MAX_FEEDBACK_TOTAL_BYTES (attemptsText history failedPlans).toList ++ truncationMarker.toList := by
      rw [String.toList_append, slice16, String.toList_ofList]
      rfl
    rw [htext, utf8Length_append]
    constructor
    · intro hboth
      exact .inr ⟨by omega, hiff.mp (by omega), hboth.1⟩
    · rintro (hbytes | hover)
      · exact absurd hbytes.1 hunits
      · have hsame := hiff.mpr hover.2.1
        exact ⟨hover.2.2, by omega⟩

end Append

/-! ## Four long attempts and a short one -/

def samplePlan (type description file : String) : CommitPlan := ⟨⟨type, none, description, none, false⟩, [file]⟩

def longPlans : List CommitPlan := [samplePlan "feat" (String.ofList (List.replicate 20000 'a')) "a.ts"]

def shortPlans : List CommitPlan := [samplePlan "fix" "z" "b.ts"]

def longHistory : List String := List.replicate 4 (feedbackEntry longPlans)

theorem longHistory_reachable : ReachableHistory longHistory := by
  have happend : ∀ n, n < 4 → ReachableHistory (List.replicate n (feedbackEntry longPlans)) →
      ReachableHistory (List.replicate (n + 1) (feedbackEntry longPlans)) := by
    intro n hn h
    have hmax : 4 ≤ MAX_FEEDBACK_HISTORY := by decide
    have hnext := nextHistory_eq (List.replicate n (feedbackEntry longPlans)) longPlans
    rw [List.length_replicate, show n + 1 - MAX_FEEDBACK_HISTORY = 0 by omega, List.drop_zero,
      ← List.replicate_succ'] at hnext
    exact hnext ▸ .append longPlans h
  exact happend 3 (by omega) (happend 2 (by omega) (happend 1 (by omega) (happend 0 (by omega) .nil)))

theorem formatFailedPlans_sample (type description file : String) :
    (formatFailedPlans [samplePlan type description file]).toList =
      type.toList ++ ": ".toList ++ (description.toList ++ ("\nFiles: ".toList ++ file.toList)) := by
  simp [formatFailedPlans, samplePlan, formatConventionalCommit, joinStrings, joinWith, String.toList_append]

/-- A long attempt fills its entry, and has no `z`. -/
theorem longEntry : MAX_FEEDBACK_ENTRY_BYTES ≤ length16 (feedbackEntry longPlans) ∧
    'z' ∉ (feedbackEntry longPlans).toList := by
  have htext : (formatFailedPlans longPlans).toList =
      "feat".toList ++ ": ".toList ++ (List.replicate 20000 'a' ++ ("\nFiles: ".toList ++ "a.ts".toList)) := by
    unfold longPlans
    rw [formatFailedPlans_sample,
      show (String.ofList (List.replicate 20000 'a')).toList = List.replicate 20000 'a' from String.toList_ofList]
  have hlength : MAX_FEEDBACK_ENTRY_BYTES < length16 (formatFailedPlans longPlans) := by
    have hunits : ∀ n, ((List.replicate n 'a').flatMap codeUnits).length = n := by
      intro n
      induction n with
      | zero => rfl
      | succ n ih =>
        rw [List.replicate_succ, List.flatMap_cons, List.length_append, ih]
        exact Nat.add_comm 1 n
    unfold length16
    rw [htext, List.flatMap_append, @List.flatMap_append _ _ (List.replicate _ _), List.length_append,
      List.length_append, hunits]
    unfold MAX_FEEDBACK_ENTRY_BYTES
    omega
  have hentry : (feedbackEntry longPlans).toList =
      takeUnits MAX_FEEDBACK_ENTRY_BYTES (formatFailedPlans longPlans).toList ++ truncationMarker.toList := by
    unfold feedbackEntry truncated
    rw [if_pos hlength, String.toList_append, slice16, String.toList_ofList]
    rfl
  refine ⟨?_, fun hz => ?_⟩
  · unfold length16
    rw [hentry, List.flatMap_append, List.length_append, takeUnits_units _ _ (Nat.le_of_lt hlength)]
    omega
  · rw [hentry, List.mem_append] at hz
    rcases hz with hz | hz
    · rcases mem_takeUnits hz with hz | hz
      · rw [htext, List.mem_append, List.mem_append (s := List.replicate _ _), List.mem_replicate] at hz
        rcases hz with hz | hz | hz
        · revert hz
          decide
        · exact absurd hz.2 (by decide)
        · revert hz
          decide
      · revert hz
        decide
    · revert hz
      decide

/-- The oldest four fill the text, and nothing is left of the newest. -/
theorem newest_dropped : ReachableHistory longHistory ∧ ¬KeepsNewest longHistory shortPlans := by
  refine ⟨longHistory_reachable, fun hkeeps => ?_⟩
  have hnew : 'z' ∈ (feedbackEntry shortPlans).toList := by decide
  have hshown := hkeeps.shown.subset hnew
  rw [previousCommit_eq] at hshown
  obtain ⟨hfull, hz⟩ := longEntry
  have htext : (attemptsText longHistory shortPlans).toList =
      joinWith attemptSeparator.toList (longHistory.map String.toList) ++
        (attemptSeparator.toList ++ (feedbackEntry shortPlans).toList) := by
    have hmax : 5 ≤ MAX_FEEDBACK_HISTORY := by decide
    unfold attemptsText joinStrings
    rw [show longHistory.length + 1 - MAX_FEEDBACK_HISTORY = 0 from Nat.sub_eq_zero_of_le hmax, List.drop_zero,
      List.map_append, List.map_singleton, String.toList_ofList]
    exact joinWith_concat _ _ (by simp [longHistory])
  have hjoined : joinWith attemptSeparator.toList (longHistory.map String.toList) =
      (feedbackEntry longPlans).toList ++ attemptSeparator.toList ++
        ((feedbackEntry longPlans).toList ++ attemptSeparator.toList ++
          ((feedbackEntry longPlans).toList ++ attemptSeparator.toList ++ (feedbackEntry longPlans).toList)) := rfl
  have hlong : MAX_FEEDBACK_TOTAL_BYTES <
      ((joinWith attemptSeparator.toList (longHistory.map String.toList)).flatMap codeUnits).length := by
    have hseparator : 0 < (attemptSeparator.toList.flatMap codeUnits).length := by decide
    unfold length16 MAX_FEEDBACK_ENTRY_BYTES at hfull
    rw [hjoined]
    simp only [List.flatMap_append, List.length_append]
    unfold MAX_FEEDBACK_TOTAL_BYTES
    omega
  have hnone : 'z' ∉ joinWith attemptSeparator.toList (longHistory.map String.toList) := by
    have hseparator : 'z' ∉ attemptSeparator.toList := by decide
    rw [hjoined]
    simp only [List.mem_append, hz, hseparator, or_self, not_false_eq_true]
  unfold truncated at hshown
  rw [if_pos, String.toList_append, slice16, String.toList_ofList, htext, takeUnits_append _ _ _ (Nat.le_of_lt hlong),
    List.mem_append] at hshown
  · rcases hshown with hshown | hshown
    · rcases mem_takeUnits hshown with hshown | hshown
      · exact hnone hshown
      · revert hshown
        decide
    · revert hshown
      decide
  · unfold length16
    rw [htext, List.flatMap_append, List.length_append]
    omega

/-- A first attempt is shown. -/
theorem keepsNewest_first : KeepsNewest [] shortPlans ∧ FitsBudget [] shortPlans := by
  have hfits : FitsBudget [] shortPlans := .inl (by decide)
  exact ⟨(keepsNewest_iff .nil shortPlans).mpr hfits, hfits⟩

end GitCommitsPush.Publication
