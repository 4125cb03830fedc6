/-
  GitCommitsPush.Bridge.JobResults — what a batch leaves at the result paths.

  `JobState`: what a job has done in each stage, kept by every answer to any job
  (`batch_keeps`). A result written once is read by the result schema as it was written
  (`Readable`), the order of fields apart: plans that answer a planning job are what the
  schema gives, and a repair leaves commit plans.

  `every_job_gets_one_result`: a batch of any answers in any order ends, and leaves that.
  The plans of a repair prompt are not checked. `untyped_plan_unreadable`: a plan that is none
  is written as it is, and the file is refused.
-/

import GitCommitsPush.Bridge.CommitJobs
import GitCommitsPush.Lib.Interleaving

namespace GitCommitsPush.Bridge

open GitCommitsPush.Lib.JsonDocument (parse stringify Plain parse_stringify)
open GitCommitsPush.Lib.JsonSchema
open GitCommitsPush.Lib.Interleaving (total total_le total_set)
open GitCommitsPush.Lib.JsonTree
open GitCommitsPush.Lib.Runs

/-! ## Schemas -/

theorem commitShape_names (isBreaking : Field) : ((commitShape isBreaking).map (·.1)).Nodup := by
  show ["type", "scope", "description", "body", "isBreaking"].Nodup
  decide

theorem planShape_names (commit : Schema) : ((planShape commit).map (·.1)).Nodup := by
  show ["commit", "files"].Nodup
  decide

theorem commitShape_forall {P : Field → Prop} {isBreaking : Field} (hstring : P (required string)) (htext : P (optional (nullable string)))
    (hbreaking : P isBreaking) : ∀ field ∈ commitShape isBreaking, P field.2 := by
  intro field hfield
  simp only [commitShape, List.mem_cons, List.not_mem_nil, or_false] at hfield
  rcases hfield with rfl | rfl | rfl | rfl | rfl
  · exact hstring
  · exact htext
  · exact hstring
  · exact htext
  · exact hbreaking

theorem planShape_forall {P : Field → Prop} {commit : Schema} (hcommit : P (required commit)) (hfiles : P (required (array string))) :
    ∀ field ∈ planShape commit, P field.2 := by
  intro field hfield
  simp only [planShape, List.mem_cons, List.not_mem_nil, or_false] at hfield
  rcases hfield with rfl | rfl
  · exact hcommit
  · exact hfiles

theorem commitMessageResultSchema_stable : Stable commitMessageResultSchema :=
  object_stable (commitShape_names _) (commitShape_forall (required_stable string_stable)
    (optional_stable (nullable_stable string_stable)) (defaulted_stable boolean_stable rfl))

theorem commitMessageResultSchema_plainly : Plainly commitMessageResultSchema :=
  object_plainly (commitShape_names _) (commitShape_forall (required_plainly string_plainly)
    (optional_plainly (nullable_plainly string_plainly)) (defaulted_plainly boolean_plainly (.bool false)))

theorem commitPlanResultSchema_stable : Stable commitPlanResultSchema :=
  object_stable (planShape_names _) (planShape_forall (required_stable commitMessageResultSchema_stable)
    (required_stable (array_stable string_stable)))

theorem commitPlanResultSchema_plainly : Plainly commitPlanResultSchema :=
  object_plainly (planShape_names _) (planShape_forall (required_plainly commitMessageResultSchema_plainly)
    (required_plainly (array_plainly string_plainly)))

/-- A commit of all five fields is read without its default. -/
theorem commitMessageResultSchema_of_required {value out : JsonValue} (h : object (commitShape (required boolean)) value = some out) :
    commitMessageResultSchema value = some out := by
  cases value with
  | object fields =>
    obtain ⟨given, hgiven, rfl⟩ := Option.map_eq_some_iff.mp h
    refine Option.map_eq_some_iff.mpr ⟨given, readShape_weaken ?_ hgiven, rfl⟩
    have hsame : ∀ field : String × Field, field.1 = field.1 ∧ ∀ found out, field.2 found = some out → field.2 found = some out :=
      fun _ => ⟨rfl, fun _ _ h => h⟩
    refine .cons (hsame _) (.cons (hsame _) (.cons (hsame _) (.cons (hsame _) (.cons ⟨rfl, fun found out hfound => ?_⟩ .nil))))
    cases found with
    | none => cases hfound
    | some value => exact hfound
  | _ => cases h

/-! ## Results that are read -/

/-- What is written reads back, and is what the schema makes of it. -/
structure Readable (schema : Schema) (value : JsonValue) : Prop where
  plain : Plain value
  read : ∃ out, schema value = some out ∧ Same out value

theorem Readable.of_stable {schema : Schema} {value out : JsonValue} (hstable : Stable schema) (hplain : Plainly schema)
    (h : schema value = some out) : Readable schema out :=
  ⟨hplain value out h, out, hstable value out h, .refl out⟩

theorem Readable.items {schema : Schema} {items : List JsonValue} (h : ∀ item ∈ items, Readable schema item) :
    Readable (array schema) (.array items) := by
  have hread : ∃ out, items.mapM schema = some out ∧ List.Forall₂ Same out items := by
    induction items with
    | nil => exact ⟨[], rfl, .nil⟩
    | cons item items ih =>
      obtain ⟨first, hfirst, hsame⟩ := (h item List.mem_cons_self).read
      obtain ⟨rest, hrest, hsames⟩ := ih fun other hother => h other (List.mem_cons_of_mem item hother)
      refine ⟨first :: rest, ?_, .cons hsame hsames⟩
      rw [List.mapM_cons, hfirst, hrest]
      rfl
  obtain ⟨out, hout, hsame⟩ := hread
  exact ⟨.array fun item hitem => (h item hitem).plain, .array out, Option.map_eq_some_iff.mpr ⟨out, hout, rfl⟩, .of_items hsame⟩

/-- A plan of a commit that is read and of names of files. -/
theorem Readable.plan {commit : JsonValue} {files : List JsonValue} (hcommit : Readable commitMessageResultSchema commit)
    (hfiles : Readable (array string) (.array files)) :
    Readable commitPlanResultSchema (.object [("commit", commit), ("files", .array files)]) := by
  obtain ⟨read, hread, hsame⟩ := hcommit.read
  obtain ⟨names, hnames, hnamesSame⟩ := hfiles.read
  refine ⟨.object (by show ["commit", "files"].Nodup; decide) ?_, .object [("commit", read), ("files", names)], ?_, ?_⟩
  · intro field hfield
    simp only [List.mem_cons, List.not_mem_nil, or_false] at hfield
    rcases hfield with rfl | rfl
    · exact hcommit.plain
    · exact hfiles.plain
  · have hreadCommit : required commitMessageResultSchema (some commit) = some (some read) := by
      rw [required, hread]; rfl
    have hreadFiles : required (array string) (some (.array files)) = some (some names) := by
      rw [required, hnames]; rfl
    show (readShape [("commit", commit), ("files", .array files)] (planShape commitMessageResultSchema)).map JsonValue.object = _
    rw [planShape, readShape, readShape, readShape]
    rw [show [("commit", commit), ("files", JsonValue.array files)].lookup "commit" = some commit from rfl,
      show [("commit", commit), ("files", JsonValue.array files)].lookup "files" = some (.array files) from rfl,
      hreadCommit, hreadFiles]
    rfl
  · exact .of_fields (.cons ⟨rfl, hsame⟩ (.cons ⟨rfl, hnamesSame⟩ .nil))

theorem errorResult_readable (id message : String) : Readable commitJobResultSchema (errorResult id message) := by
  refine ⟨.object (by show ["success", "id", "error"].Nodup; decide) ?_, errorResult id message, rfl, .refl _⟩
  intro field hfield
  simp only [List.mem_cons, List.not_mem_nil, or_false] at hfield
  rcases hfield with rfl | rfl | rfl
  · exact .bool false
  · exact .string id
  · exact .string _

theorem successResult_readable {id : String} {commits : List JsonValue} (h : ∀ commit ∈ commits, Readable commitPlanResultSchema commit) :
    Readable commitJobResultSchema (successResult id commits) := by
  have hcommits := Readable.items h
  obtain ⟨read, hread, hsame⟩ := hcommits.read
  refine ⟨.object (by show ["success", "id", "commits"].Nodup; decide) ?_,
    .object [("success", .bool true), ("id", .string id), ("commits", read)], ?_, ?_⟩
  · intro field hfield
    simp only [List.mem_cons, List.not_mem_nil, or_false] at hfield
    rcases hfield with rfl | rfl | rfl
    · exact .bool true
    · exact .string id
    · exact hcommits.plain
  · have hreadCommits : required (array commitPlanResultSchema) (some (.array commits)) = some (some read) := by
      rw [required, hread]; rfl
    unfold commitJobResultSchema union successResult object
    dsimp only
    rw [readShape, readShape, readShape, readShape]
    rw [show [("success", JsonValue.bool true), ("id", .string id), ("commits", .array commits)].lookup "commits" =
      some (.array commits) from rfl, hreadCommits]
    rfl
  · exact .of_fields (.cons ⟨rfl, .refl _⟩ (.cons ⟨rfl, .refl _⟩ (.cons ⟨rfl, hsame⟩ .nil)))

/-! ## Responses that are accepted -/

/-- A commit plan: an object of the fields of one and no others. -/
structure IsCommitPlan (plan : JsonValue) : Prop where
  plain : Plain plan
  typed : ∃ read, strict (planShape (strict (commitShape (required boolean)))) plan = some read

theorem Readable.of_repair {value commit : JsonValue} (h : repairCommitSchema value = some commit) :
    Readable commitMessageResultSchema commit := by
  have hfields : ∀ field ∈ commitShape (required boolean), FieldStable field.2 := commitShape_forall (required_stable string_stable)
    (optional_stable (nullable_stable string_stable)) (required_stable boolean_stable)
  have hplain : ∀ field ∈ commitShape (required boolean), FieldPlainly field.2 := commitShape_forall (required_plainly string_plainly)
    (optional_plainly (nullable_plainly string_plainly)) (required_plainly boolean_plainly)
  have hobject := object_of_strict h
  have hstable := object_stable (commitShape_names _) hfields value commit hobject
  exact ⟨object_plainly (commitShape_names _) hplain value commit hobject, commit, commitMessageResultSchema_of_required hstable, .refl commit⟩

/-- The commit and the files of a commit plan are read as they are. -/
theorem IsCommitPlan.fields {plan : JsonValue} (h : IsCommitPlan plan) : isNull plan = false ∧
    ∃ commit files, plan.field "commit" = some commit ∧ plan.field "files" = some (.array files) ∧
      Readable commitMessageResultSchema commit ∧ Readable (array string) (.array files) := by
  obtain ⟨read, hread⟩ := h.typed
  cases plan with
  | object fields =>
    have hplain : ∀ name value, fields.lookup name = some value → Plain value := by
      intro name value hvalue
      cases h.plain with
      | object _ hfields =>
        obtain ⟨l₁, l₂, rfl, -⟩ := List.lookup_eq_some_iff.mp hvalue
        exact hfields (name, value) (List.mem_append_right _ List.mem_cons_self)
    obtain ⟨given, hgiven, rfl⟩ := Option.map_eq_some_iff.mp (strict_eq_some hread).2
    have hcommit := @readShape_lookup _ _ _ (planShape_names _) hgiven "commit" _ List.mem_cons_self
    have hfiles := @readShape_lookup _ _ _ (planShape_names _) hgiven "files" _ (List.mem_cons_of_mem _ List.mem_cons_self)
    refine ⟨rfl, ?_⟩
    rw [field_object, field_object]
    cases hcommitField : fields.lookup "commit" with
    | none => rw [hcommitField] at hcommit; cases hcommit
    | some commit =>
      cases hfilesField : fields.lookup "files" with
      | none => rw [hfilesField] at hfiles; cases hfiles
      | some files =>
        rw [hcommitField] at hcommit
        rw [hfilesField] at hfiles
        obtain ⟨readCommit, hreadCommit, -⟩ := Option.map_eq_some_iff.mp hcommit
        obtain ⟨readFiles, hreadFiles, -⟩ := Option.map_eq_some_iff.mp hfiles
        cases files with
        | array items =>
          have hexact : Exact (strict (commitShape (required boolean))) := strict_exact (commitShape_names _)
            (commitShape_forall (required_exact string_exact) (optional_exact (nullable_exact string_exact)) (required_exact boolean_exact))
          refine ⟨commit, items, rfl, rfl, ⟨hplain _ _ hcommitField, readCommit, ?_, hexact _ _ hreadCommit⟩,
            ⟨hplain _ _ hfilesField, readFiles, hreadFiles, array_exact string_exact _ _ hreadFiles⟩⟩
          exact commitMessageResultSchema_of_required (object_of_strict hreadCommit)
        | _ => cases hreadFiles
  | _ => cases hread

section Accepted

variable {env : Environment} {payload : JsonValue}

/-- The repairs that the schema gives have commits that are read. -/
theorem repairOf_readable {response : JsonValue} {repairs : List JsonValue} (h : array repairItemSchema response = some (.array repairs))
    {planIndex : Nat} {commit : JsonValue} (hcommit : repairOf repairs planIndex = some commit) :
    Readable commitMessageResultSchema commit := by
  obtain ⟨repair, hfind, rfl⟩ := Option.map_eq_some_iff.mp hcommit
  have hrepair := List.mem_reverse.mp (List.mem_of_find?_eq_some hfind)
  cases response with
  | array items =>
    obtain ⟨given, hgiven, heq⟩ := Option.map_eq_some_iff.mp h
    cases heq
    obtain ⟨item, -, hitem⟩ := mapM_member hgiven hrepair
    cases item with
    | object fields =>
      obtain ⟨out, hout, rfl⟩ := Option.map_eq_some_iff.mp (strict_eq_some hitem).2
      have hnames : ([("planIndex", required natural), ("commit", required repairCommitSchema)].map (·.1)).Nodup := by
        show ["planIndex", "commit"].Nodup
        decide
      have hread := @readShape_lookup _ _ _ hnames hout "commit" _ (List.mem_cons_of_mem _ List.mem_cons_self)
      unfold repairCommit
      rw [field_object]
      cases hfield : fields.lookup "commit" with
      | none => rw [hfield] at hread; cases hread
      | some value =>
        rw [hfield] at hread
        obtain ⟨commit, hcommit, hlookup⟩ := Option.map_eq_some_iff.mp hread
        rw [← hlookup]
        exact Readable.of_repair hcommit
    | _ => cases hitem
  | _ => cases h

theorem mergePlan_readable {response : JsonValue} {repairs : List JsonValue} (hrepairs : array repairItemSchema response = some (.array repairs))
    {planIndex : Nat} {plan merged : JsonValue} (hplan : IsCommitPlan plan) (h : mergePlan env payload repairs planIndex plan = .ok merged) :
    Readable commitPlanResultSchema merged := by
  obtain ⟨hnull, commit, files, hcommit, hfiles, hreadCommit, hreadFiles⟩ := hplan.fields
  unfold mergePlan at h
  rw [hnull, hfiles, hcommit] at h
  cases hrepair : repairOf repairs planIndex with
  | none =>
    rw [hrepair] at h
    cases h
    exact .plan hreadCommit hreadFiles
  | some repaired =>
    rw [hrepair] at h
    cases h
    exact .plan (repairOf_readable hrepairs hrepair) hreadFiles

theorem mergePlans_readable {response : JsonValue} {repairs : List JsonValue} (hrepairs : array repairItemSchema response = some (.array repairs))
    {plans merged : List JsonValue} {planIndex : Nat} (hplans : ∀ plan ∈ plans, IsCommitPlan plan)
    (h : mergePlans env payload repairs planIndex plans = .ok merged) : ∀ plan ∈ merged, Readable commitPlanResultSchema plan := by
  induction plans generalizing planIndex merged with
  | nil => cases h; exact fun _ hmem => absurd hmem List.not_mem_nil
  | cons plan plans ih =>
    rw [mergePlans] at h
    cases hfirst : mergePlan env payload repairs planIndex plan with
    | error message => rw [hfirst] at h; cases h
    | ok first =>
      cases hrest : mergePlans env payload repairs (planIndex + 1) plans with
      | error message => rw [hfirst, hrest] at h; cases h
      | ok rest =>
        rw [hfirst, hrest] at h
        cases h
        intro other hother
        rcases List.mem_cons.mp hother with rfl | hother
        · exact mergePlan_readable hrepairs (hplans plan List.mem_cons_self) hfirst
        · exact ih (fun p hp => hplans p (List.mem_cons_of_mem _ hp)) hrest other hother

/-- The plans of a payload that asks for repairs are commit plans. -/
def TypedPlans (payload : JsonValue) : Prop := hasMode payload "repair-commit-messages" = true →
  ∀ plans, payload.field "rejectedPlans" = some (.array plans) → ∀ plan ∈ plans, IsCommitPlan plan

/-- What is accepted is read. -/
theorem accepted_readable (htyped : TypedPlans payload) {response : String} {commits : List JsonValue}
    (h : parseCommitJobResponse env payload response = .ok commits) : ∀ commit ∈ commits, Readable commitPlanResultSchema commit := by
  unfold parseCommitJobResponse at h
  cases hparse : parse env.integerOf response with
  | none => rw [hparse] at h; cases h
  | some value =>
    rw [hparse] at h
    cases value with
    | array all =>
      cases all with
      | nil => cases h
      | cons item items =>
        dsimp only at h
        by_cases hmode : hasMode payload "repair-commit-messages" = true
        · rw [if_pos hmode] at h
          unfold mergeCommitMessageRepairs at h
          cases hrepairs : array repairItemSchema (.array (item :: items)) with
          | none => rw [hrepairs] at h; cases h
          | some read =>
            rw [hrepairs] at h
            cases read with
            | array repairs =>
              dsimp only at h
              cases hrequested : requestedIndexes env payload with
              | error message => rw [hrequested] at h; cases h
              | ok requested =>
                rw [hrequested] at h
                simp only [bind, Except.bind] at h
                split at h
                · cases h
                · cases hcheck : checkRepairs env payload repairs with
                  | error message => rw [hcheck] at h; cases h
                  | ok _ =>
                    rw [hcheck] at h
                    dsimp only at h
                    cases hplans : payload.field "rejectedPlans" with
                    | none => rw [hplans] at h; cases h
                    | some rejected =>
                      rw [hplans] at h
                      cases rejected with
                      | array plans => exact mergePlans_readable hrepairs (htyped hmode plans hplans) h
                      | _ => cases h
            | _ => cases h
        · rw [if_neg hmode] at h
          cases hread : nonEmptyCommitPlanResultListSchema (.array (item :: items)) with
          | none => rw [hread] at h; cases h
          | some read =>
            rw [hread] at h
            cases read with
            | array plans =>
              cases h
              have harray : array commitPlanResultSchema (.array (item :: items)) = some (.array commits) := hread
              obtain ⟨given, hgiven, heq⟩ := Option.map_eq_some_iff.mp harray
              cases heq
              intro plan hplan
              obtain ⟨item, -, hone⟩ := mapM_member hgiven hplan
              exact Readable.of_stable commitPlanResultSchema_stable commitPlanResultSchema_plainly hone
            | _ => cases h
    | _ => cases h

end Accepted

/-! ## Runs of a batch -/

section Batch

variable {env : Environment} {jobs : List TurnlockBatchJob}

/-- How a job comes to the result it writes. -/
inductive Outcome (env : Environment) (job : TurnlockBatchJob) (responses : List String) : JsonValue → Prop
  | checkpoint (payload : JsonValue) : parse env.integerOf job.prompt = some payload → hasMode payload "checkpoint-push-only" = true →
      Outcome env job responses (successResult job.id [])
  | accepted (payload : JsonValue) (response : String) (commits : List JsonValue) : parse env.integerOf job.prompt = some payload →
      response ∈ responses → parseCommitJobResponse env payload response = .ok commits →
      Outcome env job responses (successResult job.id commits)
  | failed (message : String) : Outcome env job responses (errorResult job.id message)

/-- What a job has done in each stage; `file` is what its result path holds. -/
inductive JobState (env : Environment) (job : TurnlockBatchJob) (file : Option String) : JobRun → Prop
  | beginning : JobState env job file ⟨.beginning, 0, [], []⟩
  | resolving (payload : JsonValue) : parse env.integerOf job.prompt = some payload →
      JobState env job file ⟨.resolving payload, 0, [], []⟩
  | invoking (payload : JsonValue) (attempt : Nat) (responses : List String) : parse env.integerOf job.prompt = some payload →
      attempt ≤ 1 → JobState env job file ⟨.invoking payload attempt, attempt + 1, responses, []⟩
  | settled (calls : Nat) (responses : List String) (result : JsonValue) : calls ≤ 2 → Outcome env job responses result →
      file = some (resultText env result) → JobState env job file ⟨.settled, calls, responses, [result]⟩

/-- The answers a job may still get. -/
def Stage.answersLeft : Stage → Nat
  | .beginning => 4
  | .resolving _ => 3
  | .invoking _ attempt => 2 - attempt
  | .settled => 0

/-- The job after its answer, with the result it wrote on the way. -/
def answered (env : Environment) (job : TurnlockBatchJob) (answer : Except String String) (run : JobRun) : JobRun :=
  { (advance env job answer run).1 with results := run.results ++ (advance env job answer run).2.toList }

/-- One answer: the job is in a state of its next stage, whose file is what it wrote. -/
theorem advance_keeps {job : TurnlockBatchJob} {file : Option String} {run : JobRun} (h : JobState env job file run)
    (hopen : run.stage ≠ .settled) (answer : Except String String) :
    JobState env job ((advance env job answer run).2.elim file fun result => some (resultText env result)) (answered env job answer run) ∧
      (answered env job answer run).stage.answersLeft < run.stage.answersLeft := by
  have hsettle : ∀ (calls : Nat) (responses : List String) (result : JsonValue), calls ≤ 2 → Outcome env job responses result →
      JobState env job (some (resultText env result)) ⟨.settled, calls, responses, [result]⟩ :=
    fun calls responses result hcalls houtcome => .settled calls responses result hcalls houtcome rfl
  unfold answered
  cases h with
  | beginning =>
    unfold advance
    dsimp only
    cases hparse : parse env.integerOf job.prompt with
    | none => exact ⟨hsettle 0 [] _ (by omega) (.failed _), by simp [Stage.answersLeft]⟩
    | some payload =>
      dsimp only
      by_cases hnull : isNull payload = true
      · rw [if_pos hnull]
        exact ⟨hsettle 0 [] _ (by omega) (.failed _), by simp [Stage.answersLeft]⟩
      · rw [if_neg hnull]
        by_cases hmode : hasMode payload "checkpoint-push-only" = true
        · rw [if_pos hmode]
          exact ⟨hsettle 0 [] _ (by omega) (.checkpoint payload hparse hmode), by simp [Stage.answersLeft]⟩
        · rw [if_neg hmode]
          exact ⟨.resolving payload hparse, by simp [Stage.answersLeft]⟩
  | resolving payload hparse =>
    cases answer with
    | error message => exact ⟨hsettle 0 [] _ (by omega) (.failed message), by simp [Stage.answersLeft, advance]⟩
    | ok token =>
      unfold advance
      dsimp only
      cases hprompt : env.userPrompt payload with
      | error message => exact ⟨hsettle 0 [] _ (by omega) (.failed message), by simp [Stage.answersLeft]⟩
      | ok prompt => exact ⟨.invoking payload 0 [] hparse (by omega), by simp [Stage.answersLeft]⟩
  | invoking payload attempt responses hparse hattempt =>
    cases answer with
    | error message =>
      refine ⟨hsettle (attempt + 1) responses _ (by omega) (.failed message), ?_⟩
      show 0 < 2 - attempt
      omega
    | ok response =>
      unfold advance
      dsimp only
      cases hread : parseCommitJobResponse env payload response with
      | ok commits =>
        refine ⟨hsettle (attempt + 1) _ _ (by omega) (.accepted payload response commits hparse (by simp) hread), ?_⟩
        show 0 < 2 - attempt
        omega
      | error message =>
        dsimp only
        by_cases hfirst : attempt < 1
        · rw [if_pos hfirst]
          refine ⟨.invoking payload (attempt + 1) _ hparse (by omega), ?_⟩
          show 2 - (attempt + 1) < 2 - attempt
          omega
        · rw [if_neg hfirst]
          refine ⟨hsettle (attempt + 1) _ _ (by omega) (.failed message), ?_⟩
          show 0 < 2 - attempt
          omega
  | settled calls responses result hcalls houtcome hfile => exact absurd rfl hopen

/-- Every job is in a state of its stage. -/
structure JobStates (env : Environment) (jobs : List TurnlockBatchJob) (s : Batch) : Prop where
  length : s.runs.length = jobs.length
  state : ∀ (i : Nat) (job : TurnlockBatchJob) (run : JobRun), jobs[i]? = some job → s.runs[i]? = some run → JobState env job (s.files job.resultPath) run

/-- A job writes at its own path. -/
theorem batch_keeps (hpaths : (jobs.map (·.resultPath)).Nodup) {s s' : Batch} {label : Nat × Except String String}
    (hs : JobStates env jobs s) (h : (batch env jobs).step s label s') : JobStates env jobs s' := by
  obtain ⟨job, run, hjob, hrun, hopen, rfl⟩ := h
  have hkeep := (advance_keeps (hs.state label.1 job run hjob hrun) (fun hsettled => by rw [hsettled] at hopen; cases hopen) label.2).1
  refine ⟨by rw [← hs.length]; exact List.length_set, fun i other run' hother hrun' => ?_⟩
  have hi : i < s.runs.length := hs.length ▸ (List.getElem?_eq_some_iff.mp hother).1
  by_cases hsame : label.1 = i
  · subst hsame
    cases hjob.symm.trans hother
    have hset : (s.runs.set label.1 (answered env job label.2 run))[label.1]? = some run' := hrun'
    rw [List.getElem?_set_self hi] at hset
    cases hset
    unfold deliver
    dsimp only
    cases hwritten : (advance env job label.2 run).2 with
    | none => rw [hwritten] at hkeep; exact hkeep
    | some result =>
      rw [hwritten] at hkeep
      dsimp only
      rw [if_pos rfl]
      exact hkeep
  · have hset : (s.runs.set label.1 (answered env job label.2 run))[i]? = some run' := hrun'
    rw [List.getElem?_set_ne hsame] at hset
    have hpath : other.resultPath ≠ job.resultPath := by
      intro heq
      obtain ⟨hl, -⟩ := List.getElem?_eq_some_iff.mp hjob
      have hpathAt : (jobs.map (·.resultPath))[label.1]? = (jobs.map (·.resultPath))[i]? := by
        rw [List.getElem?_map, List.getElem?_map, hjob, hother, Option.map_some, Option.map_some, heq]
      exact hsame ((List.getElem?_inj (by rw [List.length_map]; exact hl) hpaths).mp hpathAt)
    have hfile : (deliver env job label.1 run label.2 s).files other.resultPath = s.files other.resultPath := by
      unfold deliver
      dsimp only
      cases (advance env job label.2 run).2 with
      | none => rfl
      | some result => exact if_neg hpath
    rw [hfile]
    exact hs.state i other run' hother hset

theorem batch_starts {s : Batch} (h : (batch env jobs).init s) : JobStates env jobs s := by
  have hruns : s.runs = jobs.map fun _ => ⟨.beginning, 0, [], []⟩ := h
  refine ⟨by rw [hruns, List.length_map], fun i job run hjob hrun => ?_⟩
  rw [hruns, List.getElem?_map, hjob] at hrun
  cases hrun
  exact .beginning

/-- The answers that are still to come. -/
def Batch.answersLeft (s : Batch) : Nat := total (·.stage.answersLeft) s.runs

theorem batch_ends (hpaths : (jobs.map (·.resultPath)).Nodup) {answers : List (Nat × Except String String)} {s : Batch}
    (h : Run (batch env jobs) answers s) : JobStates env jobs s ∧ answers.length + s.answersLeft ≤ 4 * jobs.length := by
  refine Run.traceInvariant (P := fun answers s => JobStates env jobs s ∧ answers.length + s.answersLeft ≤ 4 * jobs.length)
    (fun s hinit => ⟨batch_starts hinit, ?_⟩) (fun answers s label s' _ hs hstep => ⟨batch_keeps hpaths hs.1 hstep, ?_⟩) h
  · have hruns : s.runs = jobs.map fun _ => ⟨.beginning, 0, [], []⟩ := hinit
    have hleft : s.answersLeft ≤ 4 * s.runs.length := by
      refine total_le fun run hrun => ?_
      rw [hruns] at hrun
      obtain ⟨job, -, rfl⟩ := List.mem_map.mp hrun
      exact Nat.le_refl 4
    rw [List.length_nil, Nat.zero_add]
    rwa [hruns, List.length_map] at hleft
  · obtain ⟨job, run, hjob, hrun, hopen, rfl⟩ := hstep
    have hless := (advance_keeps (hs.1.state label.1 job run hjob hrun) (fun hsettled => by rw [hsettled] at hopen; cases hopen) label.2).2
    have hsum : Batch.answersLeft (deliver env job label.1 run label.2 s) < s.answersLeft := total_set hrun hless
    rw [List.length_append, List.length_singleton]
    have := hs.2
    omega

/-- A job that is not settled goes on with any answer. -/
theorem batch_goes_on {s : Batch} (hs : JobStates env jobs s) (hdone : ¬s.Done) (answer : Except String String) :
    ∃ i s', (batch env jobs).step s (i, answer) s' := by
  unfold Batch.Done at hdone
  push Not at hdone
  obtain ⟨run, hmem, hopen⟩ := hdone
  obtain ⟨i, hi, hget⟩ := List.mem_iff_getElem.mp hmem
  have hjob : i < jobs.length := hs.length ▸ hi
  refine ⟨i, _, jobs[i], run, List.getElem?_eq_getElem hjob, List.getElem?_eq_some_iff.mpr ⟨hi, hget⟩, ?_, rfl⟩
  cases hstage : run.stage with
  | settled => exact absurd hstage hopen
  | _ => rfl

theorem Outcome.readable {job : TurnlockBatchJob} {responses : List String} {result : JsonValue}
    (htyped : ∀ payload, parse env.integerOf job.prompt = some payload → TypedPlans payload) (h : Outcome env job responses result) :
    Readable commitJobResultSchema result := by
  cases h with
  | checkpoint payload hparse hmode => exact successResult_readable (fun _ hmem => absurd hmem List.not_mem_nil)
  | accepted payload response commits hparse hmem hread => exact successResult_readable (accepted_readable (htyped payload hparse) hread)
  | failed message => exact errorResult_readable _ _

theorem Outcome.id {job : TurnlockBatchJob} {responses : List String} {result : JsonValue} (h : Outcome env job responses result) :
    result.field "id" = some (.string job.id) := by
  cases h <;> rfl

/-- After a batch of at most four answers a job, every job has left one result at its path,
    which is read as it was written; it succeeds only with what an accepted response says. -/
theorem every_job_gets_one_result (hpaths : (jobs.map (·.resultPath)).Nodup)
    (htyped : ∀ job ∈ jobs, ∀ payload, parse env.integerOf job.prompt = some payload → TypedPlans payload)
    {answers : List (Nat × Except String String)} {s : Batch} (h : Run (batch env jobs) answers s) :
    answers.length ≤ 4 * jobs.length ∧ (¬s.Done → ∀ answer, ∃ i s', (batch env jobs).step s (i, answer) s') ∧
      (s.Done → ∀ (i : Nat) (job : TurnlockBatchJob), jobs[i]? = some job → ∃ run result text read, s.runs[i]? = some run ∧ run.calls ≤ 2 ∧
        run.results = [result] ∧ s.files job.resultPath = some text ∧
        (parse env.integerOf text).bind commitJobResultSchema = some read ∧ Same read result ∧
        read.field "id" = some (.string job.id) ∧
        (read.field "success" = some (.bool true) → ∃ payload, parse env.integerOf job.prompt = some payload ∧
          (hasMode payload "checkpoint-push-only" = true ∨ ∃ response ∈ run.responses, ∃ commits,
            parseCommitJobResponse env payload response = .ok commits ∧ result = successResult job.id commits))) := by
  obtain ⟨hstates, hlength⟩ := batch_ends hpaths h
  refine ⟨by omega, batch_goes_on hstates, fun hdone i job hjob => ?_⟩
  have hi : i < s.runs.length := hstates.length ▸ (List.getElem?_eq_some_iff.mp hjob).1
  have hstate := hstates.state i job s.runs[i] hjob (List.getElem?_eq_getElem hi)
  have hsettled := hdone s.runs[i] (List.getElem_mem hi)
  generalize hrun : s.runs[i] = run at hstate hsettled
  cases hstate with
  | settled calls responses result hcalls houtcome hfile =>
    have hreadable := houtcome.readable (htyped job (List.mem_of_getElem? hjob))
    obtain ⟨read, hread, hsame⟩ := hreadable.read
    refine ⟨_, result, _, read, List.getElem?_eq_some_iff.mpr ⟨hi, hrun⟩, hcalls, rfl, hfile, ?_, hsame, ?_, ?_⟩
    · rw [resultText, parse_stringify hreadable.plain]
      exact hread
    · exact hsame.field (fun _ h => Same.string h) houtcome.id
    · intro hsuccess
      cases houtcome with
      | checkpoint payload hparse hmode => exact ⟨payload, hparse, .inl hmode⟩
      | accepted payload response commits hparse hmem haccepted => exact ⟨payload, hparse, .inr ⟨response, hmem, commits, haccepted, rfl⟩⟩
      | failed message =>
        have hfalse := hsame.field (fun _ h => Same.bool h) (show (errorResult job.id message).field "success" = some (.bool false) from rfl)
        rw [hfalse] at hsuccess
        cases hsuccess
  | _ => cases hsettled

end Batch

/-! ## A batch of two jobs -/

def sampleEnvironment : Environment where
  integerOf digits := if digits = ['0'] then some 0 else none
  numeralOf _ := ['0']
  syntaxError _ := "Unexpected token"
  typeError _ := "undefined is not an object"
  schemaError _ := "Invalid input"
  userPrompt _ := .ok "diff"

def sampleCommit (description : String) : JsonValue :=
  .object [("type", .string "fix"), ("description", .string description), ("isBreaking", .bool false)]

def samplePlan (description : String) (file : JsonValue) : JsonValue :=
  .object [("commit", sampleCommit description), ("files", .array [file])]

def plannedPayload : JsonValue := .object [("diff", .string "diff")]

/-- The plan of this file is rejected. -/
def repairPayload (file : JsonValue) : JsonValue := .object [("mode", .string "repair-commit-messages"),
  ("validationErrors", .array [.object [("planIndex", .number (some 0))]]), ("rejectedPlans", .array [samplePlan "a" file])]

def plannedJob : TurnlockBatchJob := ⟨"api", resultText sampleEnvironment plannedPayload, "api.json", by decide⟩

def repairJob (file : JsonValue) : TurnlockBatchJob := ⟨"web", resultText sampleEnvironment (repairPayload file), "web.json", by decide⟩

def plannedResponse : JsonValue := .array [samplePlan "a" (.string "a.ts")]

def repairResponse : JsonValue := .array [.object [("planIndex", .number (some 0)), ("commit", sampleCommit "b")]]

theorem parse_samples : ∀ value ∈ [plannedPayload, repairPayload (.string "a.ts"), repairPayload .null, plannedResponse, repairResponse],
    parse sampleEnvironment.integerOf (resultText sampleEnvironment value) = some value := by
  intro value hvalue
  rw [parse, resultText, String.toList_ofList]
  revert value
  decide +kernel

theorem planned_accepted : parseCommitJobResponse sampleEnvironment plannedPayload (resultText sampleEnvironment plannedResponse) =
    .ok [samplePlan "a" (.string "a.ts")] := by
  rw [parseCommitJobResponse, parse_samples plannedResponse (by simp)]
  rfl

theorem repair_accepted {file : JsonValue} (h : file = .string "a.ts" ∨ file = .null) :
    parseCommitJobResponse sampleEnvironment (repairPayload file) (resultText sampleEnvironment repairResponse) = .ok [samplePlan "b" file] := by
  rw [parseCommitJobResponse, parse_samples repairResponse (by simp)]
  rcases h with rfl | rfl <;> decide +kernel

/-- The start, the token, the response: the job at the place is settled. -/
theorem batch_accepts {jobs : List TurnlockBatchJob} {s : Batch} {i : Nat} {job : TurnlockBatchJob} {payload : JsonValue} {response : String}
    {commits : List JsonValue} (hjob : jobs[i]? = some job) (hrun : s.runs[i]? = some ⟨.beginning, 0, [], []⟩)
    (hparse : parse sampleEnvironment.integerOf job.prompt = some payload) (hnull : isNull payload = false)
    (hmode : hasMode payload "checkpoint-push-only" = false)
    (haccepted : parseCommitJobResponse sampleEnvironment payload response = .ok commits) :
    Steps (batch sampleEnvironment jobs) s [(i, .ok ""), (i, .ok "token"), (i, .ok response)]
      ⟨s.runs.set i ⟨.settled, 1, [response], [successResult job.id commits]⟩, fun path =>
        if path = job.resultPath then some (resultText sampleEnvironment (successResult job.id commits)) else s.files path⟩ := by
  have hi : i < s.runs.length := (List.getElem?_eq_some_iff.mp hrun).1
  have hbegun : (batch sampleEnvironment jobs).step s (i, .ok "") ⟨s.runs.set i ⟨.resolving payload, 0, [], []⟩, s.files⟩ := by
    refine ⟨job, _, hjob, hrun, rfl, ?_⟩
    simp only [deliver, advance, hparse, hnull, hmode, Bool.false_eq_true, if_false, Option.toList_none, List.append_nil]
  have hresolved : (batch sampleEnvironment jobs).step ⟨s.runs.set i ⟨.resolving payload, 0, [], []⟩, s.files⟩ (i, .ok "token")
      ⟨s.runs.set i ⟨.invoking payload 0, 1, [], []⟩, s.files⟩ := by
    refine ⟨job, _, hjob, List.getElem?_set_self hi, rfl, ?_⟩
    simp only [deliver, advance, sampleEnvironment, Option.toList_none, List.append_nil, List.set_set]
  show Steps (batch sampleEnvironment jobs) s ([(i, .ok "")] ++ [(i, .ok "token")] ++ [(i, .ok response)]) _
  refine .snoc (.snoc (.single hbegun) hresolved) ⟨job, _, hjob, List.getElem?_set_self hi, rfl, ?_⟩
  simp only [deliver, advance, haccepted, Option.toList_some, List.nil_append, List.set_set]

def sampleJobs (file : JsonValue) : List TurnlockBatchJob := [plannedJob, repairJob file]

def sampleStart : Batch := ⟨[⟨.beginning, 0, [], []⟩, ⟨.beginning, 0, [], []⟩], fun _ => none⟩

def repairedRun (file : JsonValue) : JobRun :=
  ⟨.settled, 1, [resultText sampleEnvironment repairResponse], [successResult "web" [samplePlan "b" file]]⟩

/-- The repair is written. -/
def sampleRepaired (file : JsonValue) : Batch where
  runs := [⟨.beginning, 0, [], []⟩, repairedRun file]
  files path := if path = "web.json" then some (resultText sampleEnvironment (successResult "web" [samplePlan "b" file])) else none

def plannedRun : JobRun :=
  ⟨.settled, 1, [resultText sampleEnvironment plannedResponse], [successResult "api" [samplePlan "a" (.string "a.ts")]]⟩

/-- And the plan. -/
def sampleAnswered (file : JsonValue) : Batch where
  runs := [plannedRun, repairedRun file]
  files path := if path = "api.json" then some (resultText sampleEnvironment (successResult "api" [samplePlan "a" (.string "a.ts")]))
    else (sampleRepaired file).files path

theorem sampleAnswered_run {file : JsonValue} (h : file = .string "a.ts" ∨ file = .null) :
    ∃ answers, Run (batch sampleEnvironment (sampleJobs file)) answers (sampleAnswered file) := by
  have hprompt : parse sampleEnvironment.integerOf (repairJob file).prompt = some (repairPayload file) :=
    parse_samples (repairPayload file) (by rcases h with rfl | rfl <;> simp)
  have hmode : hasMode (repairPayload file) "checkpoint-push-only" = false := by simp [hasMode, repairPayload, JsonValue.field]
  have hrepair : Steps (batch sampleEnvironment (sampleJobs file)) sampleStart _ (sampleRepaired file) :=
    batch_accepts (i := 1) rfl rfl hprompt rfl hmode (repair_accepted h)
  have hdiff : parse sampleEnvironment.integerOf plannedJob.prompt = some plannedPayload := parse_samples plannedPayload (by simp)
  have hplan : Steps (batch sampleEnvironment (sampleJobs file)) (sampleRepaired file) _ (sampleAnswered file) :=
    batch_accepts (i := 0) rfl rfl hdiff rfl (by simp [hasMode, plannedPayload, JsonValue.field]) planned_accepted
  exact ⟨_, sampleStart, rfl, hrepair.trans hplan⟩

theorem sampleAnswered_done (file : JsonValue) : (sampleAnswered file).Done := by
  intro run hrun
  rcases List.mem_cons.mp hrun with rfl | hrun
  · rfl
  · cases List.mem_singleton.mp hrun
    rfl

theorem sampleAnswered_file (file : JsonValue) : (sampleAnswered file).files "web.json" =
    some (resultText sampleEnvironment (successResult "web" [samplePlan "b" file])) := by
  have hother : "web.json" ≠ "api.json" := by decide
  simp only [sampleAnswered, sampleRepaired, if_neg hother, if_true]

theorem samplePlan_typed : IsCommitPlan (samplePlan "a" (.string "a.ts")) := by
  refine ⟨.object (by decide) fun field hfield => ?_, _, rfl⟩
  rcases List.mem_cons.mp hfield with rfl | hfield
  · refine .object (by decide) fun field hfield => ?_
    simp only [List.mem_cons, List.not_mem_nil, or_false] at hfield
    rcases hfield with rfl | rfl | rfl
    · exact .string _
    · exact .string _
    · exact .bool _
  · cases List.mem_singleton.mp hfield
    refine .array fun item hitem => ?_
    cases List.mem_singleton.mp hitem
    exact .string _

theorem two_jobs_get_one_result : ∃ s : Batch, s.Done ∧ ∀ job ∈ sampleJobs (.string "a.ts"), ∃ text read,
    s.files job.resultPath = some text ∧ (parse sampleEnvironment.integerOf text).bind commitJobResultSchema = some read ∧
      read.field "id" = some (.string job.id) := by
  obtain ⟨answers, hrun⟩ := sampleAnswered_run (.inl rfl)
  have htyped : ∀ job ∈ sampleJobs (.string "a.ts"), ∀ payload, parse sampleEnvironment.integerOf job.prompt = some payload →
      TypedPlans payload := by
    intro job hjob payload hparse
    rcases List.mem_cons.mp hjob with rfl | hjob
    · cases (parse_samples plannedPayload (by simp)).symm.trans hparse
      exact fun hmode => by cases hmode
    · cases List.mem_singleton.mp hjob
      cases (parse_samples (repairPayload (.string "a.ts")) (by simp)).symm.trans hparse
      intro _ plans hplans plan hplan
      cases hplans
      cases List.mem_singleton.mp hplan
      exact samplePlan_typed
  obtain ⟨-, -, hresults⟩ := every_job_gets_one_result (by decide) htyped hrun
  refine ⟨_, sampleAnswered_done (.string "a.ts"), fun job hjob => ?_⟩
  obtain ⟨i, hi⟩ := List.mem_iff_getElem?.mp hjob
  obtain ⟨run, result, text, read, -, -, -, hfile, hread, -, hid, -⟩ := hresults (sampleAnswered_done (.string "a.ts")) i job hi
  exact ⟨text, read, hfile, hread, hid⟩

/-- The response repairs the commit; the file that is written is refused. -/
theorem untyped_plan_unreadable : ∃ labels s, Run (batch sampleEnvironment (sampleJobs .null)) labels s ∧ s.Done ∧
    ∃ text, s.files "web.json" = some text ∧ (parse sampleEnvironment.integerOf text).bind commitJobResultSchema = none := by
  obtain ⟨labels, hrun⟩ := sampleAnswered_run (.inr rfl)
  refine ⟨labels, _, hrun, sampleAnswered_done .null, _, sampleAnswered_file .null, ?_⟩
  rw [parse, resultText, String.toList_ofList]
  decide +kernel

end GitCommitsPush.Bridge
