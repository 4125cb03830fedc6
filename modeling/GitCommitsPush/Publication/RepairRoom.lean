/-
  GitCommitsPush.Publication.RepairRoom — whether a repair job can be answered
  (`core/commit-message-repair.ts`, `core/validation-retry-handler.ts`).

  A repair may change the description and the body, nothing else. `HasRoom` says that the
  type, the scope and the breaking mark leave room for a valid message; by
  `valid_iff_candidate` three descriptions decide it. `repair_possible_iff`: for a repair job
  that is queued, some answer is accepted and leaves no error if and only if every plan has
  room. A plan of a type that is none of `VALID_TYPES` has none (`feature_is_a_dead_end`).
-/

import GitCommitsPush.Publication.MessageRepair
import GitCommitsPush.Publication.PlanText
import GitCommitsPush.Publication.ResultTrace
import GitCommitsPush.Publication.SubjectRoom

namespace GitCommitsPush.Publication

open GitCommitsPush.Lib.Effect
open GitCommitsPush.Lib.JsonTree

/-! ## Messages by their header -/

def commitHeader (commit : CommitMessage) : List Char :=
  commit.type.toList ++ (match commit.scope with
    | some scope => if scope = "" then "" else "(" ++ scope ++ ")"
    | none => "").toList ++ (if commit.isBreaking then "!" else "").toList

def commitText (commit : CommitMessage) : List Char :=
  commit.description.toList ++ (match commit.body with
    | some body => if body = "" then "" else "\n\n" ++ body
    | none => "").toList

theorem formatConventionalCommit_eq (commit : CommitMessage) :
    formatConventionalCommit commit = headed (commitHeader commit) (commitText commit) := by
  obtain ⟨type, scope, description, body, isBreaking⟩ := commit
  apply String.toList_inj.mp
  unfold formatConventionalCommit headed commitHeader commitText
  cases scope <;> cases body <;>
    simp only [String.toList_append, String.toList_ofList, show ": ".toList = [':', ' '] from rfl, List.append_assoc,
      List.cons_append, List.nil_append]

/-- One of three descriptions makes a valid message of the type, the scope and the mark. -/
def HasRoom (commit : CommitMessage) : Prop :=
  ∃ description ∈ ["", "x", "): x"],
    validateCommitMessage (formatConventionalCommit { commit with description := description, body := none }) = []

instance (commit : CommitMessage) : Decidable (HasRoom commit) := by
  unfold HasRoom
  infer_instance

theorem format_description (commit : CommitMessage) (description : String) :
    formatConventionalCommit { commit with description := description, body := none } =
      headed (commitHeader commit) description.toList := by
  rw [formatConventionalCommit_eq]
  show headed _ (description.toList ++ "".toList) = _
  rw [show "".toList = [] from rfl, List.append_nil]
  rfl

theorem hasRoom_iff (commit : CommitMessage) :
    HasRoom commit ↔ ∃ text, validateCommitMessage (headed (commitHeader commit) text) = [] := by
  rw [valid_iff_candidate]
  unfold HasRoom roomCandidates
  simp only [format_description, List.mem_cons, List.not_mem_nil, or_false, exists_eq_or_imp, exists_eq_left]

/-- A valid message shows that there is room. -/
theorem hasRoom_of_valid {commit other : CommitMessage} (htype : other.type = commit.type)
    (hscope : other.scope = commit.scope) (hbreaking : other.isBreaking = commit.isBreaking)
    (h : validateCommitMessage (formatConventionalCommit other) = []) : HasRoom commit := by
  rw [hasRoom_iff]
  rw [formatConventionalCommit_eq] at h
  refine ⟨commitText other, ?_⟩
  unfold commitHeader at h ⊢
  rw [htype, hscope, hbreaking] at h
  exact h

/-! ## An answer -/

/-- The first description that will do. -/
def roomCommit (commit : CommitMessage) : CommitMessage :=
  { commit with
    description := (["", "x", "): x"].find? fun description => (validateCommitMessage
      (formatConventionalCommit { commit with description := description, body := none })).isEmpty).getD ""
    body := none }

theorem roomCommit_protected (commit : CommitMessage) : (roomCommit commit).type = commit.type ∧
    (roomCommit commit).scope = commit.scope ∧ (roomCommit commit).isBreaking = commit.isBreaking := by
  unfold roomCommit
  exact ⟨rfl, rfl, rfl⟩

theorem roomCommit_valid {commit : CommitMessage} (h : HasRoom commit) :
    validateCommitMessage (formatConventionalCommit (roomCommit commit)) = [] := by
  obtain ⟨description, hmem, hvalid⟩ := h
  unfold roomCommit
  cases hfind : ["", "x", "): x"].find? fun description => (validateCommitMessage
      (formatConventionalCommit { commit with description := description, body := none })).isEmpty with
  | none =>
    have hnone := List.find?_eq_none.mp hfind description hmem
    rw [hvalid] at hnone
    exact absurd List.isEmpty_nil hnone
  | some found =>
    have hfound := List.find?_some hfind
    rw [List.isEmpty_iff] at hfound
    rw [Option.getD_some]
    exact hfound

def roomRepairs (plans : List CommitPlan) (validationErrors : List FeedbackError) : List MessageRepair :=
  (expectedIndexes validationErrors).filterMap fun planIndex =>
    plans[planIndex]?.map fun plan => ⟨planIndex, roomCommit plan.commit⟩

def encodeCommit (commit : CommitMessage) : JsonValue :=
  .object [("type", .string commit.type), ("scope", (commit.scope.map .string).getD .null),
    ("description", .string commit.description), ("body", (commit.body.map .string).getD .null),
    ("isBreaking", .bool commit.isBreaking)]

def encodeRepair (repair : MessageRepair) : JsonValue :=
  .object [("planIndex", .number (some repair.planIndex)), ("commit", encodeCommit repair.commit)]

theorem readsOptional_encode (s : Option String) :
    JsonValue.ReadsOptional (some ((s.map JsonValue.string).getD .null)) s := by
  cases s with
  | none => exact .null
  | some value => exact .string value

theorem readsCommit_encode (commit : CommitMessage) : ReadsCommit (encodeCommit commit) commit := by
  have hscope := readsOptional_encode commit.scope
  have hbody := readsOptional_encode commit.body
  refine ⟨_, rfl, by simp [commitFieldNames], ?_⟩
  simp only [List.lookup_cons, beq_self_eq_true, show ("scope" == "type") = false from by decide,
    show ("description" == "type") = false from by decide, show ("description" == "scope") = false from by decide,
    show ("body" == "type") = false from by decide, show ("body" == "scope") = false from by decide,
    show ("body" == "description") = false from by decide, show ("isBreaking" == "type") = false from by decide,
    show ("isBreaking" == "scope") = false from by decide, show ("isBreaking" == "description") = false from by decide,
    show ("isBreaking" == "body") = false from by decide, true_and]
  exact ⟨hscope, hbody, trivial⟩

theorem readsRepair_encode (repair : MessageRepair) : ReadsRepair (encodeRepair repair) repair := by
  refine ⟨_, encodeCommit repair.commit, rfl, by simp, ?_, ?_, readsCommit_encode repair.commit⟩
  · rw [List.lookup_cons, beq_self_eq_true]
  · rw [List.lookup_cons, show ("commit" == "planIndex") = false from by decide]
    dsimp only
    rw [List.lookup_cons, beq_self_eq_true]

theorem parseRepairs_encode (repairs : List MessageRepair) :
    parseRepairs (.array (repairs.map encodeRepair)) = some repairs := by
  refine parseRepairs_eq_some.mpr ⟨_, rfl, List.length_map .., fun i item repair hitem hrepair => ?_⟩
  rw [List.getElem?_map, hrepair] at hitem
  cases hitem
  exact readsRepair_encode repair

/-- The errors collected name the plans with an invalid message. -/
theorem collected_names (start : Nat) (plans : List CommitPlan) (index : Nat) :
    (∃ error ∈ collectFrom start plans, error.planIndex = some index) ↔ ∃ i plan, index = start + i ∧
      plans[i]? = some plan ∧ validateCommitMessage (formatConventionalCommit plan.commit) ≠ [] := by
  induction plans generalizing start with
  | nil =>
    constructor
    · intro hcollected
      obtain ⟨error, hmem, _⟩ := hcollected
      cases hmem
    · intro hplan
      obtain ⟨i, plan, _, hget, _⟩ := hplan
      cases hget
  | cons plan plans ih =>
    unfold collectFrom
    dsimp only
    constructor
    · intro hcollected
      obtain ⟨error, hmem, hindex⟩ := hcollected
      rcases List.mem_append.mp hmem with hmem | hmem
      · obtain ⟨message, hmessage, rfl⟩ := List.mem_map.mp hmem
        cases hindex
        exact ⟨0, plan, by omega, rfl, List.ne_nil_of_mem hmessage⟩
      · obtain ⟨i, other, hi, hget, hinvalid⟩ := (ih (start + 1)).mp ⟨error, hmem, hindex⟩
        exact ⟨i + 1, other, by omega, hget, hinvalid⟩
    · intro hplan
      obtain ⟨i, other, hi, hget, hinvalid⟩ := hplan
      cases i with
      | zero =>
        cases hget
        obtain ⟨message, messages, hmessages⟩ := List.exists_cons_of_ne_nil hinvalid
        refine ⟨validationError start (firstLine (formatConventionalCommit plan.commit)) message,
          List.mem_append_left _ (List.mem_map_of_mem (hmessages ▸ List.mem_cons_self)), ?_⟩
        rw [hi]
        rfl
      | succ i =>
        obtain ⟨error, hmem, hindex⟩ := (ih (start + 1)).mpr ⟨i, other, by omega, hget, hinvalid⟩
        exact ⟨error, List.mem_append_right _ hmem, hindex⟩

theorem expectedIndexes_nodup (validationErrors : List FeedbackError) : (expectedIndexes validationErrors).Nodup :=
  (List.mergeSort_perm _ _).nodup_iff.mpr (nodup_eraseDups _)

theorem mem_expectedIndexes {validationErrors : List FeedbackError} {index : Nat} :
    index ∈ expectedIndexes validationErrors ↔ ∃ error ∈ validationErrors, error.planIndex = some index := by
  unfold expectedIndexes
  rw [(List.mergeSort_perm _ _).mem_iff, List.mem_eraseDups, List.mem_filterMap]

section Answer

variable (plans : List CommitPlan)

theorem roomRepairs_indexes :
    (roomRepairs plans (collectCommitMessageValidationErrors plans)).map (·.planIndex) =
      expectedIndexes (collectCommitMessageValidationErrors plans) := by
  unfold roomRepairs
  rw [List.map_filterMap]
  have hall : ∀ index ∈ expectedIndexes (collectCommitMessageValidationErrors plans),
      ((plans[index]?.map fun plan => (⟨index, roomCommit plan.commit⟩ : MessageRepair)).map (·.planIndex)) = some index := by
    intro index hmem
    obtain ⟨i, plan, hi, hget, _⟩ := (collected_names 0 plans index).mp (mem_expectedIndexes.mp hmem)
    rw [show index = i by omega, hget]
    rfl
  rw [List.filterMap_congr hall]
  exact List.filterMap_some ..

theorem roomRepairs_answers :
    CoversRejected plans (collectCommitMessageValidationErrors plans)
      (roomRepairs plans (collectCommitMessageValidationErrors plans)) := by
  refine ⟨?_, ?_, ?_⟩
  · rw [roomRepairs_indexes]
    exact expectedIndexes_nodup _
  · intro index
    rw [roomRepairs_indexes]
    exact mem_expectedIndexes
  · intro repair hmem
    obtain ⟨index, _, hrepair⟩ := List.mem_filterMap.mp hmem
    obtain ⟨plan, hget, rfl⟩ := Option.map_eq_some_iff.mp hrepair
    exact ⟨plan, hget, roomCommit_protected plan.commit⟩

/-- The plans with room for it, their invalid messages replaced, are valid. -/
theorem roomRepairs_valid (h : ∀ plan ∈ plans, HasRoom plan.commit) :
    ValidMessages (mergeRepairs plans (roomRepairs plans (collectCommitMessageValidationErrors plans))) := by
  have hmerged : Merged plans _ _ := mergeRepairs_merged (roomRepairs_answers plans).nodup
  intro result hresult
  obtain ⟨i, hi, hget⟩ := List.mem_iff_getElem.mp hresult
  have hresult : (mergeRepairs plans (roomRepairs plans (collectCommitMessageValidationErrors plans)))[i]? = some result := by
    rw [List.getElem?_eq_getElem hi, hget]
  have hlt : i < plans.length := hmerged.length ▸ hi
  have hplan : plans[i]? = some plans[i] := List.getElem?_eq_getElem hlt
  by_cases hnamed : ∃ repair ∈ roomRepairs plans (collectCommitMessageValidationErrors plans), repair.planIndex = i
  · obtain ⟨repair, hmem, rfl⟩ := hnamed
    rw [hmerged.repaired repair hmem result hresult]
    obtain ⟨index, _, hrepair⟩ := List.mem_filterMap.mp hmem
    obtain ⟨plan, hgiven, rfl⟩ := Option.map_eq_some_iff.mp hrepair
    exact roomCommit_valid (h plan (List.mem_of_getElem? hgiven))
  · have hnone : ∀ repair ∈ roomRepairs plans (collectCommitMessageValidationErrors plans), repair.planIndex ≠ i :=
      fun repair hmem heq => hnamed ⟨repair, hmem, heq⟩
    rw [hmerged.kept i _ result hnone hplan hresult]
    by_cases hvalid : validateCommitMessage (formatConventionalCommit plans[i].commit) = []
    · exact hvalid
    · -- an invalid message is named by an error, and so repaired
      have hmem : i ∈ expectedIndexes (collectCommitMessageValidationErrors plans) :=
        mem_expectedIndexes.mpr ((collected_names 0 plans i).mpr ⟨i, _, by omega, hplan, hvalid⟩)
      rw [← roomRepairs_indexes] at hmem
      obtain ⟨repair, hrepair, hindex⟩ := List.mem_map.mp hmem
      exact absurd hindex (hnone repair hrepair)

theorem repairable_iff :
    (∃ response merged, mergeCommitMessageRepairs plans (collectCommitMessageValidationErrors plans) response = .ok merged ∧
      collectCommitMessageValidationErrors merged = []) ↔ ∀ plan ∈ plans, HasRoom plan.commit := by
  have hcollect : ∀ plans, collectCommitMessageValidationErrors plans = [] ↔ ValidMessages plans := fun plans => by
    rw [← collectFrom_isEmpty 0 plans, List.isEmpty_iff]
    rfl
  constructor
  · intro ⟨response, merged, hmerge, hnone⟩ plan hplan
    obtain ⟨repairs, _, hanswers, rfl⟩ := answers_of_merge hmerge
    have hvalid := (hcollect _).mp hnone
    have hmerged : Merged plans _ _ := mergeRepairs_merged hanswers.nodup
    obtain ⟨i, hi, hget⟩ := List.mem_iff_getElem.mp hplan
    have hplan : plans[i]? = some plan := by rw [List.getElem?_eq_getElem hi, hget]
    have hlt : i < (mergeRepairs plans repairs).length := hmerged.length ▸ hi
    have hresult : (mergeRepairs plans repairs)[i]? = some (mergeRepairs plans repairs)[i] := List.getElem?_eq_getElem hlt
    have hgood := hvalid _ (List.getElem_mem hlt)
    by_cases hnamed : ∃ repair ∈ repairs, repair.planIndex = i
    · obtain ⟨repair, hmem, rfl⟩ := hnamed
      obtain ⟨kept, hkept, htype, hscope, hbreaking⟩ := hanswers.keeps repair hmem
      cases hkept.symm.trans hplan
      rw [hmerged.repaired repair hmem _ hresult] at hgood
      exact hasRoom_of_valid htype hscope hbreaking hgood
    · rw [hmerged.kept i plan _ (fun repair hmem heq => hnamed ⟨repair, hmem, heq⟩) hplan hresult] at hgood
      exact hasRoom_of_valid rfl rfl rfl hgood
  · intro h
    exact ⟨_, _, merge_of_answers (parseRepairs_encode _) (roomRepairs_answers plans),
      (hcollect _).mpr (roomRepairs_valid plans h)⟩

end Answer

/-! ## The jobs queued -/

section Jobs

variable {σ : Type} (host : Host σ) (repoId : String) (settings : Settings) (systemPrompt : String)

/-- The job of an attempt carries the plans and their errors. -/
def Attempt.RepairsPlans (attempt : Attempt) (plans : List CommitPlan) (errors : List FeedbackError) : Prop :=
  ∀ job, attempt.job = some job → job.prompt.work = .repairCommitMessages plans errors

theorem queueRetry_work {repoState : RepoState} {errors : List FeedbackError} {options : QueueRetryOptions}
    {plans : List CommitPlan} (hrepair : isMessageRepair errors plans = true) :
    Action.Returns (queueRetry host repoId repoState errors options settings systemPrompt plans) fun result =>
      ∀ job, result.job = some job → job.prompt.work = .repairCommitMessages plans errors := by
  unfold queueRetry
  apply Action.Returns.ite
  · intro _
    exact Action.Returns.throw _
  · intro _
    rw [if_pos hrepair]
    cases hqueue : queueCommitMessageRepair host repoId repoState errors settings systemPrompt plans with
    | error message => exact Action.Returns.throw message
    | ok result =>
      refine Action.Returns.pure fun job hjob => ?_
      cases result with
      | queued newState queued =>
        cases hjob
        exact queueCommitMessageRepair_work host hqueue
      | loopDetected newState => cases hjob

theorem handleValidationRetry_work (repoState : RepoState) (plans : List CommitPlan) :
    Action.Returns (handleValidationRetry host repoId settings systemPrompt repoState plans) fun attempt =>
      ∀ a, attempt = some a → a.RepairsPlans plans (collectCommitMessageValidationErrors plans) := by
  have hnone : ∀ {state : RepoState}, Action.Returns (pure (some (.settled state none)) : Action σ String (Option Attempt))
      fun attempt => ∀ a, attempt = some a → a.RepairsPlans plans (collectCommitMessageValidationErrors plans) := by
    intro state
    refine Action.Returns.pure fun a ha job hjob => ?_
    cases ha
    cases hjob
  have hsome : ∀ {attempt : Attempt}, attempt.RepairsPlans plans (collectCommitMessageValidationErrors plans) →
      Action.Returns (pure (some attempt) : Action σ String (Option Attempt))
        fun attempt => ∀ a, attempt = some a → a.RepairsPlans plans (collectCommitMessageValidationErrors plans) := by
    intro attempt h
    refine Action.Returns.pure fun a ha => ?_
    cases ha
    exact h
  unfold handleValidationRetry
  apply Action.Returns.ite
  · intro _
    exact Action.Returns.pure fun a ha => by cases ha
  intro herrors
  have hrepair := isMessageRepair_collected (Bool.not_eq_true _ ▸ herrors)
  have hfallback : ∀ state : RepoState, Action.Returns (queueFallback host repoId settings systemPrompt state
      (collectCommitMessageValidationErrors plans) plans) fun result => ∀ job, result.job = some job →
        job.prompt.work = .repairCommitMessages plans (collectCommitMessageValidationErrors plans) :=
    fun state => queueRetry_work host repoId _ systemPrompt hrepair
  apply Action.Returns.ite
  · intro _
    exact hnone
  intro _
  apply Action.Returns.ite
  · intro _
    refine Action.Returns.bind (queueRetry_work host repoId settings systemPrompt hrepair) ?_
    intro result h
    cases result with
    | queued state job => exact hsome h
    | loopDetected state =>
      -- the fallback model's turn
      have hrepeated : Action.Returns (afterRepeatedRepair host repoId settings systemPrompt state
          (collectCommitMessageValidationErrors plans) plans)
          fun attempt => attempt.RepairsPlans plans (collectCommitMessageValidationErrors plans) := by
        unfold afterRepeatedRepair
        apply Action.Returns.ite
        · intro _
          refine Action.Returns.bind (hfallback state) ?_
          intro result h
          cases result with
          | queued state' job => exact Action.Returns.pure h
          | loopDetected state' => exact Action.Returns.pure fun job hjob => by cases hjob
        · intro _
          exact Action.Returns.pure fun job hjob => by cases hjob
      exact Action.Returns.bind hrepeated fun attempt hattempt => hsome hattempt
  intro _
  apply Action.Returns.ite
  · intro _
    refine Action.Returns.bind (hfallback repoState) ?_
    intro result h
    cases result with
    | queued state job => exact hsome h
    | loopDetected state => exact hnone
  · intro _
    exact hnone

/-- The first invalid messages of a repository are queued for repair. -/
theorem handleValidationRetry_queues {repoState : RepoState} {plans : List CommitPlan}
    (herrors : (collectCommitMessageValidationErrors plans).isEmpty = false) (hfallback : repoState.fallbackAttempted = false)
    (hattempts : repoState.attempts.get .validation < MAX_ATTEMPTS_BY_KIND.get .validation) {diffHash : String}
    (hhash : repoState.diffHash = some diffHash) (hne : diffHash ≠ "") (hplans : repoState.lastPlanHash = none) (w : σ) :
    ∃ state job, ((handleValidationRetry host repoId settings systemPrompt repoState plans).run w).1 =
      .ok (some (.settled state (some job))) := by
  have hcounted : (countAttempt repoState .validation).diffHash = some diffHash := hhash
  have hlast : (countAttempt repoState .validation).lastPlanHash = none := hplans
  unfold handleValidationRetry
  rw [if_neg (by rw [herrors]; simp), if_neg (by rw [hfallback]; simp), if_pos hattempts]
  unfold queueRetry
  rw [hcounted, Option.getD_some, if_neg hne, if_pos (isMessageRepair_collected herrors)]
  unfold queueCommitMessageRepair
  rw [hcounted]
  dsimp only
  rw [if_neg hne, hlast, if_neg (by simp)]
  exact ⟨_, _, rfl⟩

end Jobs

/-- A repair job that is queued can be answered so that no error is left if and only if every
    plan's type, scope and breaking mark leave room for a valid message. -/
theorem repair_possible_iff {σ : Type} (host : Host σ) (repoId : String) (settings : Settings) (systemPrompt : String)
    (repoState state : RepoState) (plans : List CommitPlan) (job : RetryJob) (w : σ)
    (h : ((handleValidationRetry host repoId settings systemPrompt repoState plans).run w).1 =
      .ok (some (.settled state (some job)))) :
    job.prompt.work = .repairCommitMessages plans (collectCommitMessageValidationErrors plans) ∧
    ((∃ response merged,
      mergeCommitMessageRepairs plans (collectCommitMessageValidationErrors plans) response = .ok merged ∧
        collectCommitMessageValidationErrors merged = []) ↔ ∀ plan ∈ plans, HasRoom plan.commit) :=
  ⟨handleValidationRetry_work host repoId settings systemPrompt repoState plans w _ h _ rfl job rfl, repairable_iff plans⟩

/-! ### A type that no repair may change -/

def repairHost : Host Unit where
  sha256 _ := ""
  localeCompare _ _ := 0
  execSync _ _ := pure ""
  execFileGit _ _ _ := pure ""
  writeMessage _ _ := pure ""
  pathExists _ _ := pure true
  randomUUID := pure ""
  runTestCascade _ := pure ()

def repairSettings : Settings := ⟨"provider", "model", 0, true, true, none, none, none, none, none⟩

def plannedState : RepoState := { repository := "/repo", status := .RUNNING, operation := none, diffHash := some "hash" }

def featurePlan : CommitPlan := ⟨⟨"feature", some "core", "add the scanner", none, false⟩, ["scanner.ts"]⟩

def pastPlan : CommitPlan := ⟨⟨"feat", some "core", "Added the scanner.", none, true⟩, ["scanner.ts"]⟩

theorem repair_possible_iff_sample : ∃ response merged,
    mergeCommitMessageRepairs [pastPlan] (collectCommitMessageValidationErrors [pastPlan]) response = .ok merged ∧
      collectCommitMessageValidationErrors merged = [] := by
  obtain ⟨state, job, h⟩ : ∃ state job,
      ((handleValidationRetry repairHost "repo" repairSettings "system" plannedState [pastPlan]).run ()).1 =
        .ok (some (.settled state (some job))) :=
    handleValidationRetry_queues _ _ _ _ (by decide +kernel) rfl (by decide) rfl (by decide) rfl ()
  refine (repair_possible_iff repairHost "repo" repairSettings "system" plannedState state [pastPlan] job () h).2.mpr ?_
  intro plan hplan
  cases List.mem_singleton.mp hplan
  decide +kernel

/-- The type is not one of the valid ones and no repair may change it. -/
theorem feature_is_a_dead_end :
    (∃ state job, ((handleValidationRetry repairHost "repo" repairSettings "system" plannedState [featurePlan]).run ()).1 =
      .ok (some (.settled state (some job))) ∧
      job.prompt.work = .repairCommitMessages [featurePlan] (collectCommitMessageValidationErrors [featurePlan])) ∧
    ¬∃ response merged,
      mergeCommitMessageRepairs [featurePlan] (collectCommitMessageValidationErrors [featurePlan]) response = .ok merged ∧
        collectCommitMessageValidationErrors merged = [] := by
  constructor
  · obtain ⟨state, job, h⟩ : ∃ state job,
        ((handleValidationRetry repairHost "repo" repairSettings "system" plannedState [featurePlan]).run ()).1 =
          .ok (some (.settled state (some job))) :=
      handleValidationRetry_queues _ _ _ _ (by decide +kernel) rfl (by decide) rfl (by decide) rfl ()
    exact ⟨state, job, h, handleValidationRetry_work repairHost "repo" repairSettings "system" plannedState [featurePlan] ()
      _ h _ rfl job rfl⟩
  · rw [repairable_iff]
    intro h
    have hroom := h featurePlan (by simp)
    revert hroom
    decide +kernel

end GitCommitsPush.Publication
