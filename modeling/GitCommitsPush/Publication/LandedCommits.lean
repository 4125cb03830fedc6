/-
  GitCommitsPush.Publication.LandedCommits — which landed commits a publication reports.

  A `Script` says how every subprocess of `executeMultiCommitAndPush` ends and what there is
  to commit; a commit may land and its subprocess fail. Two things lose a landed commit: the
  plan that lands it fails afterwards, and a later plan fails whose cleanup fails too, since
  the error then thrown carries no commits. And a landed file is pending where a plan that
  did not land names it, its directory named by one that did. `landed_commits_booked_iff`
  says that these are all; `unbooked_commit` is one of them.
-/

import GitCommitsPush.Publication.ObjectId
import GitCommitsPush.Publication.PlanSelections
import GitCommitsPush.Publication.PublisherTrace
import GitCommitsPush.Publication.PushKeeps

namespace GitCommitsPush.Publication

open GitCommitsPush.Lib.Effect
open GitCommitsPush.Lib.JsText
open GitCommitsPush.Lib.Trace (lifted note run_lifted)

/-! ## How the subprocesses end -/

/-- How `git commit` ends. -/
inductive CommitOutcome where
  | created
  | refused (error : ExecError)
  | createdThenFailed (error : ExecError)

/-- How the subprocesses of one plan end; no error is success. `changed` are the paths that
    differ from HEAD when its files are staged. -/
structure PlanScript where
  sha : ObjectId
  changed : List RepoPath
  add : Option ExecError
  writeMessage : Except ExecError String
  commit : CommitOutcome
  revParse : Option ExecError
  /-- The reset after the plan, committed or failed. -/
  reset : Option ExecError
  status : String → Except ExecError String
  pathExists : String → Except ExecError Bool
  lsFiles : String → Except ExecError String

structure Script where
  tree : WorkTree
  diff : Except ExecError String
  originalHead : Except ExecError String
  firstReset : Option ExecError
  plan : Nat → PlanScript

/-- The repository: the commits created, how many plans have been staged, and what the
    other subprocesses act on. -/
structure Scripted (τ : Type) where
  history : List String
  staged : Nat
  rest : τ

section Host

variable {τ : Type}

def onRest {ε α : Type} (x : Action τ ε α) : Action (Scripted τ) ε α := fun w =>
  ((x.run w.rest).1, { w with rest := (x.run w.rest).2 })

def ended {α : Type} (error : Option ExecError) (value : α) : Except ExecError α :=
  match error with
  | none => .ok value
  | some error => .error error

/-- The plan last staged. -/
def Script.current (script : Script) (w : Scripted τ) : PlanScript := script.plan (w.staged - 1)

def Script.commits (script : Script) (w : Scripted τ) : Except ExecError String × Scripted τ :=
  let landed := { w with history := w.history ++ [(script.current w).sha.text] }
  match (script.current w).commit with
  | .created => (.ok "", landed)
  | .refused error => (.error error, w)
  | .createdThenFailed error => (.error error, landed)

/-- Git as the script has it; every other subprocess, those of the push among them, is
    `other`'s. -/
def scriptedHost (script : Script) (other : Host τ) : Host (Scripted τ) where
  sha256 := other.sha256
  localeCompare := other.localeCompare
  execSync cwd command := fun w =>
    if command = "git diff --cached" then (script.diff, w)
    else if command = "git rev-parse HEAD" then
      if w.staged = 0 then (script.originalHead, w)
      else (ended (script.current w).revParse ((script.current w).sha.text ++ "\n"), w)
    else if command = "git reset HEAD" then
      if w.staged = 0 then (ended script.firstReset "", w) else (ended (script.current w).reset "", w)
    else onRest (other.execSync cwd command) w
  execFileGit cwd args processConfig := fun w =>
    if args.take 2 = ["--literal-pathspecs", "add"] then (ended (script.plan w.staged).add "", { w with staged := w.staged + 1 })
    else if args.take 2 = ["commit", "--file"] then script.commits w
    else if args.take 2 = ["--literal-pathspecs", "status"] then ((script.current w).status (args.getLastD ""), w)
    else if args.take 2 = ["--literal-pathspecs", "ls-files"] then ((script.current w).lsFiles (args.getLastD ""), w)
    else onRest (other.execFileGit cwd args processConfig) w
  writeMessage i _ := fun w => ((script.plan i).writeMessage, w)
  pathExists _ file := fun w => ((script.current w).pathExists file, w)
  randomUUID := onRest other.randomUUID
  runTestCascade repository := onRest (other.runTestCascade repository)

end Host

/-! ## What the script does to a plan -/

namespace PlanScript

variable (script : PlanScript)

def staged : Bool := script.add.isNone && script.writeMessage.isOk

/-- The plan's commit is created. -/
def lands : Bool := script.staged && match script.commit with
  | .created | .createdThenFailed _ => true
  | .refused _ => false

/-- The plan's commit is created and read. -/
def succeeds : Bool := script.staged && script.revParse.isNone && match script.commit with
  | .created => true
  | .refused _ | .createdThenFailed _ => false

/-- The subprocesses that tell why a file could not be committed succeed. -/
def inspects (file : String) : Bool :=
  match script.status file with
  | .error _ => false
  | .ok status => status != "" || match script.pathExists file with
    | .error _ => false
    | .ok present => present || (script.lsFiles file).isOk

/-- So does the whole cleanup of the failed plan. -/
def cleansUp (files : List String) : Bool := script.reset.isNone && files.all script.inspects

end PlanScript

/-- The first plan from number `i` on that fails, counted from there. -/
def Script.firstFailure (script : Script) (i : Nat) : List CommitPlan → Option Nat
  | [] => none
  | _ :: rest => if (script.plan i).succeeds then (script.firstFailure (i + 1) rest).map (· + 1) else some 0

/-- The commits of the plans from number `i` on. -/
def Script.planned (script : Script) (i : Nat) : List CommitPlan → List CommittedSha
  | [] => []
  | plan :: rest => ⟨(script.plan i).sha.text, plan.files⟩ :: script.planned (i + 1) rest

/-- The cleanup of plan `i + n`, number `n` of those from `i` on, succeeds. -/
def Script.cleanedUp (script : Script) (i : Nat) (rest : List CommitPlan) (n : Nat) : Bool :=
  rest[n]?.any fun plan => (script.plan (i + n)).cleansUp plan.files

/-! ## The books -/

def reported : Except PublishError Published → List CommittedSha
  | .ok published => published.committedShas
  | .error error => error.committedShas

/-- The files an error reports as pending. -/
def PublishError.pendingFiles : PublishError → List String
  | .partialCommit _ context => context.pendingFiles
  | .commitPlan _ _ _ (some context) => context.pendingFiles
  | _ => []

def pending : Except PublishError Published → List String
  | .ok _ => []
  | .error error => error.pendingFiles

/-- The commit of plan `i` has the changed path. -/
def Script.Commits (script : Script) (i : Nat) (plan : CommitPlan) (path : RepoPath) : Prop :=
  ∃ file ∈ plan.files, Takes script.tree (script.plan i).changed file path

/-- What is reported are the commits created, in order and with their plans' files. No path
    that they have is reported as pending, and no file that their plans name. -/
structure Booked (script : Script) (plans : List CommitPlan) (created : List String) (r : Except PublishError Published) : Prop where
  shas : (reported r).map (·.sha) = created
  files : (reported r).map (·.files) = (plans.take created.length).map (·.files)
  named : ∀ f ∈ pending r, ∀ plan ∈ plans.take created.length, ∀ g ∈ plan.files, normalizePath f ≠ normalizePath g
  pending : ∀ f ∈ pending r, ∀ i plan, i < created.length → plans[i]? = some plan → ∀ path, script.Commits i plan path →
    script.tree.pathspec f ≠ some path

section Loop

variable {τ : Type} (script : Script) (other : Host τ) (repoPath : String)

/-! ## One plan -/

theorem gitExecArgs_run {σ : Type} (host : Host σ) (args : List String) (w : σ) :
    (host.gitExecArgs args repoPath).run w =
      (((host.execFileGit repoPath args []).run w).1.map trimString, ((host.execFileGit repoPath args []).run w).2) := by
  unfold Host.gitExecArgs Host.gitExecArgsWith
  rw [Action.run_bind]
  cases (host.execFileGit repoPath args []).run w with
  | mk r w' => cases r <;> rfl

theorem add_run (files : List String) (w : Scripted τ) :
    ((scriptedHost script other).gitExecArgs (["--literal-pathspecs", "add", "--"] ++ files) repoPath).run w =
      ((ended (script.plan w.staged).add "").map trimString, { w with staged := w.staged + 1 }) := by
  rw [gitExecArgs_run]
  rfl

theorem commit_run (message : String) (w : Scripted τ) :
    ((scriptedHost script other).gitExecArgs ["commit", "--file", message, "--no-verify"] repoPath).run w =
      ((script.commits w).1.map trimString, (script.commits w).2) := by
  rw [gitExecArgs_run]
  rfl

theorem revParse_run {w : Scripted τ} (hstaged : w.staged ≠ 0) :
    ((scriptedHost script other).execSync repoPath "git rev-parse HEAD").run w =
      (ended (script.current w).revParse ((script.current w).sha.text ++ "\n"), w) := by
  simp [scriptedHost, Action.run, hstaged]

theorem reset_run {w : Scripted τ} (hstaged : w.staged ≠ 0) :
    ((scriptedHost script other).gitExec "reset HEAD" repoPath).run w =
      ((ended (script.current w).reset "").map trimString, w) := by
  unfold Host.gitExec
  rw [Action.run_bind]
  have h : ((scriptedHost script other).execSync repoPath ("git " ++ "reset HEAD")).run w =
      (ended (script.current w).reset "", w) := by
    simp [scriptedHost, Action.run, hstaged]
  rw [h]
  cases (script.current w).reset <;> rfl

/-- The world after plan `i`. -/
def afterPlan (i : Nat) (w : Scripted τ) : Scripted τ :=
  { w with
    history := w.history ++ if (script.plan i).lands then [(script.plan i).sha.text] else []
    staged := w.staged + 1 }

theorem writeMessage_run (i : Nat) (message : String) (w : Scripted τ) :
    ((scriptedHost script other).writeMessage i message).run w = ((script.plan i).writeMessage, w) := rfl

/-- One plan: its commit, if it lands, and its report, if nothing fails. -/
theorem commitPlan_run (plan : CommitPlan) (w : Scripted τ) (trace : List Event) :
    ∃ trace', let out := (commitPlan (scriptedHost script other) repoPath w.staged plan).run ⟨w, trace⟩
      out.2 = ⟨afterPlan script w.staged w, trace'⟩ ∧
      if (script.plan w.staged).succeeds then out.1 = .ok ⟨(script.plan w.staged).sha.text, plan.files⟩
      else ∃ e, out.1 = .error e := by
  have hcurrent : script.current { w with staged := w.staged + 1 } = script.plan w.staged := rfl
  simp only [commitPlan, Action.run_bind, run_lifted, add_run, writeMessage_run, afterPlan]
  cases hadd : (script.plan w.staged).add with
  | some e => exact ⟨trace, by simp [PlanScript.lands, PlanScript.staged, hadd, ended, Except.map],
      by simp [PlanScript.succeeds, PlanScript.staged, hadd, ended, Except.map]⟩
  | none =>
    simp only [ended, Except.map]
    cases hwrite : (script.plan w.staged).writeMessage with
    | error e => exact ⟨trace, by simp [PlanScript.lands, PlanScript.staged, hwrite, Except.isOk, Except.toBool],
        by simp [PlanScript.succeeds, PlanScript.staged, hwrite, Except.isOk, Except.toBool]⟩
    | ok tempMsgPath =>
      have hstaged : (script.plan w.staged).staged = true := by
        rw [PlanScript.staged, hadd, hwrite]
        rfl
      simp only [commit_run, Script.commits, hcurrent]
      cases hcommit : (script.plan w.staged).commit with
      | refused e => exact ⟨trace, by simp [PlanScript.lands, hstaged, hcommit, Except.map],
          by simp [PlanScript.succeeds, hstaged, hcommit, Except.map]⟩
      | createdThenFailed e => exact ⟨trace, by simp [PlanScript.lands, hstaged, hcommit, Except.map],
          by simp [PlanScript.succeeds, hstaged, hcommit, Except.map]⟩
      | created =>
        have hlands : (script.plan w.staged).lands = true := by
          rw [PlanScript.lands, hstaged, hcommit]
          rfl
        simp only [Except.map, hlands, if_true]
        rw [revParse_run script other repoPath (Nat.succ_ne_zero w.staged)]
        simp only [show ∀ history, script.current ⟨history, w.staged + 1, w.rest⟩ = script.plan w.staged from fun _ => rfl]
        cases hread : (script.plan w.staged).revParse with
        | some e => exact ⟨trace, by simp [ended], by simp [PlanScript.succeeds, hread, ended]⟩
        | none =>
          refine ⟨trace ++ [.committed repoPath (script.plan w.staged).sha.text], ?_, ?_⟩
          · simp only [ended, (script.plan w.staged).sha.printed]
            rfl
          · simp only [ended, (script.plan w.staged).sha.printed, PlanScript.succeeds, hstaged, hread, hcommit]
            rfl

/-! ## A failed plan -/

theorem status_run (file : String) (w : Scripted τ) :
    ((scriptedHost script other).gitExecArgsRaw
      ["--literal-pathspecs", "status", "--porcelain=v1", "--ignored=matching", "-z", "--", file] repoPath).run w =
      ((script.current w).status file, w) := rfl

theorem lsFiles_run (file : String) (w : Scripted τ) :
    ((scriptedHost script other).gitExecArgsRaw ["--literal-pathspecs", "ls-files", "--cached", "-z", "--", file] repoPath).run w =
      ((script.current w).lsFiles file, w) := rfl

theorem pathExists_run (file : String) (w : Scripted τ) :
    ((scriptedHost script other).pathExists repoPath file).run w = ((script.current w).pathExists file, w) := rfl

theorem inspectPlannedFile_run (file : String) (w : Scripted τ) :
    ∃ r, (inspectPlannedFile (scriptedHost script other) repoPath file).run w = (r, w) ∧
      r.isOk = (script.current w).inspects file := by
  unfold inspectPlannedFile
  rw [Action.run_bind, status_run]
  unfold PlanScript.inspects
  cases hstatus : (script.current w).status file with
  | error e => exact ⟨_, rfl, rfl⟩
  | ok status =>
    by_cases hempty : status = ""
    · simp only [hempty, ne_eq, not_true_eq_false, if_false, Action.run_bind, pathExists_run, bne_self_eq_false, Bool.false_or]
      cases (script.current w).pathExists file with
      | error e => exact ⟨_, rfl, rfl⟩
      | ok present =>
        cases present with
        | true => exact ⟨_, rfl, rfl⟩
        | false =>
          simp only [Bool.false_eq_true, if_false, Action.run_bind, lsFiles_run, Bool.false_or]
          cases (script.current w).lsFiles file with
          | error e => exact ⟨_, rfl, rfl⟩
          | ok tracked => exact ⟨_, rfl, rfl⟩
    · simp only [ne_eq, hempty, not_false_eq_true, if_true, bne_iff_ne.mpr hempty, Bool.true_or]
      exact ⟨_, rfl, rfl⟩

theorem inspectCommitPlanFileState_run (files : List String) (w : Scripted τ) :
    ∃ r, (inspectCommitPlanFileState (scriptedHost script other) repoPath files).run w = (r, w) ∧
      r.isOk = files.all (script.current w).inspects := by
  induction files with
  | nil => exact ⟨_, rfl, rfl⟩
  | cons file files ih =>
    obtain ⟨found, hfound, hok⟩ := inspectPlannedFile_run script other repoPath file w
    obtain ⟨r, hr, hrest⟩ := ih
    unfold inspectCommitPlanFileState
    rw [Action.run_bind, hfound, List.all_cons, ← hok, ← hrest]
    cases found with
    | error e => exact ⟨_, rfl, rfl⟩
    | ok found =>
      simp only [Action.run_bind, hr]
      cases r with
      | error e => exact ⟨_, rfl, rfl⟩
      | ok rest => cases found <;> exact ⟨_, rfl, rfl⟩

/-- The cleanup succeeds, and the error reports what landed before, or it fails. -/
theorem commitFailure_run (plans : List CommitPlan) (originalHead : String) (i : Nat) (plan : CommitPlan)
    (committedShas : List CommittedSha) (commitErr : ExecError) {w : Scripted τ} (hstaged : w.staged ≠ 0) :
    ∃ r, (commitFailure (scriptedHost script other) repoPath plans originalHead i plan committedShas commitErr).run w = (r, w) ∧
      if (script.current w).cleansUp plan.files then ∃ error, r = .ok error ∧
        error.committedShas = committedShas ∧ error.pendingFiles = collectPendingFiles plans i
      else ∃ e, r = .error e := by
  obtain ⟨inspected, hinspected, hok⟩ := inspectCommitPlanFileState_run script other repoPath plan.files w
  simp only [commitFailure, Action.run_bind, Action.run_attempt, reset_run script other repoPath hstaged]
  unfold PlanScript.cleansUp
  cases hreset : (script.current w).reset with
  | some e => exact ⟨_, rfl, by simp⟩
  | none =>
    simp only [ended, Except.map, hinspected, ← hok]
    cases inspected with
    | error e => exact ⟨_, rfl, _, rfl⟩
    | ok fileState =>
      simp only [Option.isNone_none, Bool.true_and, Except.isOk, Except.toBool, if_true]
      split
      · exact ⟨_, rfl, _, rfl, rfl, rfl⟩
      · split
        · exact ⟨_, rfl, _, rfl, rfl, rfl⟩
        · exact ⟨_, rfl, _, rfl, rfl, rfl⟩

/-! ## The loop -/

/-- A loop that ends well reports every plan. One that fails at plan `n` has created the
    commits before it, and perhaps its own, and reports those before or none. -/
theorem commitPlans_run (plans : List CommitPlan) (originalHead : String) (rest : List CommitPlan) (w : Scripted τ)
    (trace : List Event) (done : List CommittedSha) :
    let out := (commitPlans (scriptedHost script other) repoPath plans originalHead w.staged done rest).run ⟨w, trace⟩
    match script.firstFailure w.staged rest with
    | none => out.1 = .ok (done ++ script.planned w.staged rest) ∧
        out.2.world.history = w.history ++ (script.planned w.staged rest).map (·.sha)
    | some n => ∃ error, out.1 = .error error ∧
        out.2.world.history = w.history ++ ((script.planned w.staged rest).map (·.sha)).take
          (n + if (script.plan (w.staged + n)).lands then 1 else 0) ∧
        if script.cleanedUp w.staged rest n then
          error.committedShas = done ++ (script.planned w.staged rest).take n ∧
            error.pendingFiles = collectPendingFiles plans (w.staged + n)
        else error.committedShas = [] ∧ error.pendingFiles = [] := by
  induction rest generalizing w trace done with
  | nil => exact ⟨by simp [commitPlans, Script.planned], by simp [commitPlans, Script.planned]⟩
  | cons plan rest ih =>
    obtain ⟨trace', hworld, hreport⟩ := commitPlan_run script other repoPath plan w trace
    have hstaged : (afterPlan script w.staged w).staged ≠ 0 := Nat.succ_ne_zero _
    simp only [commitPlans, Action.run_bind, Action.run_outcome, hworld, Script.firstFailure]
    by_cases hsucceeds : (script.plan w.staged).succeeds = true
    · rw [if_pos hsucceeds] at hreport
      have hlands : (script.plan w.staged).lands = true := by
        unfold PlanScript.succeeds PlanScript.lands at *
        cases hcommit : (script.plan w.staged).commit <;> simp_all
      have hhistory : (afterPlan script w.staged w).history = w.history ++ [(script.plan w.staged).sha.text] := by
        rw [afterPlan, hlands]
        rfl
      simp only [hreport, Action.run_bind, Action.run_outcome, run_lifted, if_pos hsucceeds,
        reset_run script other repoPath hstaged]
      have h := ih (afterPlan script w.staged w) trace' (done ++ [⟨(script.plan w.staged).sha.text, plan.files⟩])
      simp only [show (afterPlan script w.staged w).staged = w.staged + 1 from rfl] at h
      cases hfailure : script.firstFailure (w.staged + 1) rest with
      | none =>
        simp only [hfailure, hhistory] at h
        exact ⟨by rw [h.1]; simp [Script.planned], by rw [h.2]; simp [Script.planned]⟩
      | some n =>
        simp only [hfailure, hhistory] at h
        obtain ⟨error, herror, hcreated, hbooks⟩ := h
        have hindex : w.staged + (n + 1) = w.staged + 1 + n := by omega
        have htake : n + 1 + (if (script.plan (w.staged + 1 + n)).lands then 1 else 0) =
            n + (if (script.plan (w.staged + 1 + n)).lands then 1 else 0) + 1 := by omega
        have hclean : script.cleanedUp w.staged (plan :: rest) (n + 1) = script.cleanedUp (w.staged + 1) rest n := by
          unfold Script.cleanedUp
          rw [hindex]
          rfl
        simp only [Option.map_some, hclean, hindex, htake]
        refine ⟨error, herror, by rw [hcreated]; simp [Script.planned], ?_⟩
        split at hbooks
        · rw [if_pos (by assumption)]
          exact ⟨by rw [hbooks.1]; simp [Script.planned], hbooks.2⟩
        · rw [if_neg (by assumption)]
          exact hbooks
    · rw [if_neg hsucceeds] at hreport
      obtain ⟨commitErr, hcommitErr⟩ := hreport
      simp only [hcommitErr, Action.run_bind, Action.run_outcome, run_lifted, if_neg hsucceeds]
      obtain ⟨failure, hfailure, hbooks⟩ := commitFailure_run script other repoPath plans originalHead w.staged plan done
        commitErr hstaged
      simp only [hfailure]
      have hcurrent : script.current (afterPlan script w.staged w) = script.plan w.staged := rfl
      have hclean : script.cleanedUp w.staged (plan :: rest) 0 = (script.plan w.staged).cleansUp plan.files := rfl
      rw [hcurrent] at hbooks
      rw [hclean]
      have hcreated : (afterPlan script w.staged w).history = w.history ++
          ((script.planned w.staged (plan :: rest)).map (·.sha)).take
            (0 + if (script.plan (w.staged + 0)).lands then 1 else 0) := by
        rw [afterPlan]
        by_cases hlands : (script.plan w.staged).lands = true
        · simp [hlands, Script.planned]
        · simp [hlands]
      by_cases hcleans : (script.plan w.staged).cleansUp plan.files = true
      · rw [if_pos hcleans] at hbooks
        obtain ⟨error, rfl, hshas, hpending⟩ := hbooks
        refine ⟨error, rfl, hcreated, ?_⟩
        rw [if_pos hcleans]
        exact ⟨by rw [hshas]; simp, hpending⟩
      · rw [if_neg hcleans] at hbooks
        obtain ⟨e, rfl⟩ := hbooks
        refine ⟨_, rfl, hcreated, ?_⟩
        rw [if_neg hcleans]
        exact ⟨rfl, rfl⟩

end Loop

/-! ## The whole call -/

/-- The guard lets the expected diff through. -/
def Script.expects (script : Script) (sha256 : String → String) (expectedDiffHash : String) : Prop :=
  expectedDiffHash = EMPTY_DIFF_HASH ∨ ∃ diff, script.diff = .ok diff ∧ sha256 diff = expectedDiffHash

/-- The call gets past its guards to the loop. -/
def Script.reachesLoop (script : Script) (sha256 : String → String) (plans : List CommitPlan) (expectedDiffHash : String) :
    Prop :=
  plans ≠ [] ∧ firstDuplicate [] (plans.flatMap (·.files)) = none ∧ script.expects sha256 expectedDiffHash ∧
    (∃ head, script.originalHead = .ok head) ∧ script.firstReset = none

/-- No plan from number `n` on names a path that the commit of an earlier one has. -/
def Script.Apart (script : Script) (plans : List CommitPlan) (n : Nat) : Prop :=
  ∀ i plan, i < n → plans[i]? = some plan → ∀ path, script.Commits i plan path →
    ∀ later ∈ plans.drop n, ∀ f ∈ later.files, script.tree.pathspec f ≠ some path

/-- The first plan that fails lands no commit and, unless it is the first of all, its
    cleanup succeeds and what landed before is apart from the plans left. -/
def Script.KeepsBooks (script : Script) (plans : List CommitPlan) : Prop :=
  ∀ n, script.firstFailure 0 plans = some n →
    (script.plan n).lands = false ∧ (n = 0 ∨ (script.cleanedUp 0 plans n = true ∧ script.Apart plans n))

section Call

variable {τ : Type} (script : Script) (other : Host τ) (repoPath : String)

/-- A step before the loop that fails has committed nothing and reports nothing. -/
def Unstarted {α : Type} (w : Scripted τ) (out : Except PublishError α × Traced (Scripted τ)) : Prop :=
  out.2.world = w ∧ ∃ error, out.1 = .error error ∧ error.committedShas = [] ∧ error.pendingFiles = []

theorem diff_run (w : Scripted τ) :
    ((scriptedHost script other).execSync repoPath "git diff --cached").run w = (script.diff, w) := rfl

theorem originalHead_run {w : Scripted τ} (hstaged : w.staged = 0) :
    ((scriptedHost script other).execSync repoPath "git rev-parse HEAD").run w = (script.originalHead, w) := by
  simp [scriptedHost, Action.run, hstaged]

theorem firstReset_run {w : Scripted τ} (hstaged : w.staged = 0) :
    ((scriptedHost script other).gitExec "reset HEAD" repoPath).run w =
      ((ended script.firstReset "").map trimString, w) := by
  unfold Host.gitExec
  rw [Action.run_bind]
  have h : ((scriptedHost script other).execSync repoPath ("git " ++ "reset HEAD")).run w =
      (ended script.firstReset "", w) := by
    simp [scriptedHost, Action.run, hstaged]
  rw [h]
  cases script.firstReset <;> rfl

theorem guardDiffHash_run (expectedDiffHash : String) (w : Scripted τ) (trace : List Event) :
    let out := (guardDiffHash (scriptedHost script other) repoPath expectedDiffHash).run ⟨w, trace⟩
    (script.expects other.sha256 expectedDiffHash ∧ out = (.ok (), ⟨w, trace⟩)) ∨
      (¬ script.expects other.sha256 expectedDiffHash ∧ Unstarted w out) := by
  unfold guardDiffHash Script.expects
  by_cases hempty : expectedDiffHash = EMPTY_DIFF_HASH
  · simp only [if_pos hempty]
    exact .inl ⟨.inl hempty, rfl⟩
  simp only [if_neg hempty, Action.run_bind, unwrapped_run, diff_run]
  cases hdiff : script.diff with
  | error e =>
    refine .inr ⟨?_, rfl, _, rfl, rfl, rfl⟩
    intro h
    rcases h with h | ⟨diff, h, -⟩
    · exact hempty h
    · cases h
  | ok diff =>
    by_cases hhash : other.sha256 diff = expectedDiffHash
    · refine .inl ⟨.inr ⟨diff, rfl, hhash⟩, ?_⟩
      simp only [show (scriptedHost script other).sha256 diff = expectedDiffHash from hhash, ne_eq, not_true_eq_false, if_false]
      rfl
    · refine .inr ⟨?_, ?_⟩
      · intro h
        rcases h with h | ⟨diff', h, hh⟩
        · exact hempty h
        · cases h
          exact hhash hh
      · simp only [show ¬ (scriptedHost script other).sha256 diff = expectedDiffHash from hhash, ne_eq, not_false_eq_true, if_true]
        exact ⟨rfl, _, rfl, rfl, rfl⟩

/-- The call either runs its loop and its push, or fails before it has done anything. -/
theorem executeMultiCommitAndPush_run (plans : List CommitPlan) (expectedDiffHash : String) (settings : Settings)
    (history : List String) (rest : τ) (trace : List Event) :
    let out := (executeMultiCommitAndPush (scriptedHost script other) repoPath plans expectedDiffHash settings).run
      ⟨⟨history, 0, rest⟩, trace⟩
    (script.reachesLoop other.sha256 plans expectedDiffHash ∧ ∃ originalHead trace', out =
      (do
        let committedShas ← commitPlans (scriptedHost script other) repoPath plans originalHead 0 [] plans
        pushCommits (scriptedHost script other) repoPath settings committedShas originalHead).run
        ⟨⟨history, 0, rest⟩, trace'⟩) ∨
      (¬ script.reachesLoop other.sha256 plans expectedDiffHash ∧ Unstarted ⟨history, 0, rest⟩ out) := by
  unfold executeMultiCommitAndPush
  have hnote : ∀ {α : Type} (event : Event) (f : Unit → Action (Traced (Scripted τ)) PublishError α) w,
      (note event >>= f).run w = (f ()).run { w with trace := w.trace ++ [event] } := fun _ _ _ => rfl
  rw [hnote]
  by_cases hplans : plans.isEmpty = true
  · simp only [if_pos hplans]
    refine .inr ⟨fun h => h.1 (List.isEmpty_iff.mp hplans), rfl, _, rfl, rfl, rfl⟩
  rw [if_neg hplans]
  cases hduplicate : firstDuplicate [] (plans.flatMap (·.files)) with
  | some file =>
    refine .inr ⟨fun h => ?_, rfl, _, rfl, rfl, rfl⟩
    have hnone := h.2.1
    rw [hduplicate] at hnone
    cases hnone
  | none =>
    simp only [Action.run_bind]
    rcases guardDiffHash_run script other repoPath expectedDiffHash ⟨history, 0, rest⟩
      (trace ++ [.executing repoPath expectedDiffHash]) with ⟨hexpects, hguard⟩ | ⟨hexpects, hworld, error, herror, hshas, hpending⟩
    · simp only [hguard]
      rw [unwrapped_run, originalHead_run script other repoPath rfl]
      cases hhead : script.originalHead with
      | error e =>
        refine .inr ⟨fun h => ?_, rfl, .other e.message, rfl, rfl, rfl⟩
        obtain ⟨head, h⟩ := h.2.2.2.1
        rw [hhead] at h
        cases h
      | ok head =>
        dsimp only
        rw [unwrapped_run, firstReset_run script other repoPath rfl]
        cases hreset : script.firstReset with
        | some e =>
          refine .inr ⟨fun h => ?_, rfl, .other e.message, rfl, rfl, rfl⟩
          have hnone := h.2.2.2.2
          rw [hreset] at hnone
          cases hnone
        | none =>
          exact .inl ⟨⟨fun h => hplans (List.isEmpty_iff.mpr h), hduplicate, hexpects, ⟨head, hhead⟩, hreset⟩,
            trimString head, trace ++ [.executing repoPath expectedDiffHash], rfl⟩
    · refine .inr ⟨fun h => hexpects h.2.2.1, ?_⟩
      cases hguard : (guardDiffHash (scriptedHost script other) repoPath expectedDiffHash).run
        ⟨⟨history, 0, rest⟩, trace ++ [.executing repoPath expectedDiffHash]⟩ with
      | mk r w =>
        rw [hguard] at hworld herror
        subst herror
        exact ⟨hworld, error, rfl, hshas, hpending⟩

/-- A push creates no commit and keeps the report of those made. -/
theorem pushCommits_run (settings : Settings) (committedShas : List CommittedSha) (originalHead : String)
    (w : Scripted τ) (trace : List Event) :
    let out := (pushCommits (scriptedHost script other) repoPath settings committedShas originalHead).run ⟨w, trace⟩
    out.2.world.history = w.history ∧ reported out.1 = committedShas ∧ pending out.1 = [] := by
  have hkeeps : Action.Keeps (fun w' : Scripted τ => w'.history = w.history)
      (executePush (scriptedHost script other) repoPath settings.autoPush) := by
    apply executePush_keeps
    · intro cwd args processConfig hcommit hliteral w' hw'
      have hhead : ∀ a b, a ≠ "" → args.headD "" ≠ a → args.take 2 ≠ [a, b] := by
        intro a b _ hne htake
        cases args with
        | nil => cases htake
        | cons head args => exact hne (List.cons.inj htake).1
      simp only [scriptedHost, Action.run, if_neg (hhead _ "add" (by decide) hliteral),
        if_neg (hhead _ "--file" (by decide) hcommit), if_neg (hhead _ "status" (by decide) hliteral),
        if_neg (hhead _ "ls-files" (by decide) hliteral)]
      exact hw'
    · intro w' hw'
      exact hw'
  have h := hkeeps w rfl
  simp only [pushCommits, Action.run_bind, Action.run_attempt, run_lifted]
  cases hpush : (executePush (scriptedHost script other) repoPath settings.autoPush).run w with
  | mk r w' =>
    rw [hpush] at h
    cases r with
    | ok retryCount => exact ⟨h, rfl, rfl⟩
    | error error => exact ⟨h, rfl, rfl⟩

/-! ## Duplicates -/

/-- Plans that pass the guard share no file. -/
theorem pending_apart {plans : List CommitPlan} (h : firstDuplicate [] (plans.flatMap (·.files)) = none) (n : Nat) :
    ∀ f ∈ collectPendingFiles plans n, ∀ plan ∈ plans.take n, ∀ g ∈ plan.files, normalizePath f ≠ normalizePath g := by
  intro f hf plan hplan g hg heq
  have hnodup := (firstDuplicate_none _ _ h).1
  rw [← List.take_append_drop n plans, List.flatMap_append, List.map_append, List.nodup_append] at hnodup
  have hleft : normalizePath g ∈ ((plans.take n).flatMap (·.files)).map normalizePath :=
    List.mem_map_of_mem (List.mem_flatMap.mpr ⟨plan, hplan, hg⟩)
  have hright : normalizePath f ∈ ((plans.drop n).flatMap (·.files)).map normalizePath :=
    List.mem_map_of_mem (List.mem_eraseDups.mp hf)
  exact hnodup.2.2 _ hleft _ hright heq.symm

/-! ## The books of a call -/

theorem planned_files (i : Nat) (plans : List CommitPlan) : (script.planned i plans).map (·.files) = plans.map (·.files) := by
  induction plans generalizing i with
  | nil => rfl
  | cons plan rest ih => rw [Script.planned, List.map_cons, List.map_cons, ih]

theorem firstFailure_lt {i n : Nat} {plans : List CommitPlan} (h : script.firstFailure i plans = some n) :
    n < plans.length := by
  induction plans generalizing i n with
  | nil => cases h
  | cons plan rest ih =>
    unfold Script.firstFailure at h
    by_cases hsucceeds : (script.plan i).succeeds = true
    · rw [if_pos hsucceeds] at h
      obtain ⟨m, hm, rfl⟩ := Option.map_eq_some_iff.mp h
      have := ih hm
      simp only [List.length_cons]
      omega
    · rw [if_neg hsucceeds] at h
      cases h
      simp

theorem planned_shas_length (i : Nat) (plans : List CommitPlan) :
    ((script.planned i plans).map (·.sha)).length = plans.length := by
  induction plans generalizing i with
  | nil => rfl
  | cons plan rest ih =>
    rw [Script.planned, List.map_cons, List.length_cons, ih, List.length_cons]

/-- A call that fails at plan `n`, its cleanup done, keeps the books unless the plan lands, or
    what landed is named by a plan left. -/
theorem booked_failure {plans : List CommitPlan} {n : Nat} (hn : n < plans.length) (landed : Bool)
    (hapart : firstDuplicate [] (plans.flatMap (·.files)) = none) {r : Except PublishError Published}
    (hreported : reported r = (script.planned 0 plans).take n) (hpending : pending r = collectPendingFiles plans n) :
    Booked script plans (((script.planned 0 plans).map (·.sha)).take (n + if landed = true then 1 else 0)) r ↔
      landed = false ∧ script.Apart plans n := by
  have hlength := planned_shas_length script 0 plans
  have hcreated : (((script.planned 0 plans).map (·.sha)).take (n + if false = true then 1 else 0)).length = n := by
    rw [if_neg Bool.false_ne_true, List.length_take, hlength]
    omega
  have hmem : ∀ {f : String}, f ∈ collectPendingFiles plans n ↔ ∃ plan ∈ plans.drop n, f ∈ plan.files := by
    intro f
    rw [collectPendingFiles, List.mem_eraseDups, List.mem_flatMap]
  constructor
  · intro h
    have hshas := congrArg List.length h.shas
    rw [hreported, List.map_take, List.length_take, List.length_take, hlength] at hshas
    cases landed with
    | false =>
      refine ⟨rfl, fun i plan hi hplan path hpath later hlater f hf => ?_⟩
      exact h.pending f (hpending ▸ hmem.mpr ⟨later, hlater, hf⟩) i plan (lt_of_lt_of_eq hi hcreated.symm) hplan path hpath
    | true =>
      rw [if_pos rfl] at hshas
      omega
  · rintro ⟨rfl, hleft⟩
    refine ⟨?_, ?_, ?_, ?_⟩
    · rw [hreported, List.map_take, if_neg Bool.false_ne_true]
      rfl
    · rw [hreported, List.map_take, planned_files, hcreated, List.map_take]
    · rw [hpending, hcreated]
      exact pending_apart hapart n
    · intro f hf i plan hi hplan path hpath
      obtain ⟨later, hlater, hf⟩ := hmem.mp (hpending ▸ hf)
      exact hleft i plan (hcreated ▸ hi) hplan path hpath later hlater f hf

/-- A call that fails at plan `n` and reports nothing keeps the books if nothing landed. -/
theorem booked_silence {plans : List CommitPlan} {n : Nat} (hn : n < plans.length) (landed : Bool)
    {r : Except PublishError Published} (hreported : reported r = []) (hpending : pending r = []) :
    Booked script plans (((script.planned 0 plans).map (·.sha)).take (n + if landed = true then 1 else 0)) r ↔
      landed = false ∧ n = 0 := by
  have hlength := planned_shas_length script 0 plans
  constructor
  · intro h
    have hshas := congrArg List.length h.shas
    rw [hreported, List.map_nil, List.length_nil, List.length_take, hlength] at hshas
    cases landed with
    | false =>
      rw [if_neg Bool.false_ne_true] at hshas
      exact ⟨rfl, by omega⟩
    | true =>
      rw [if_pos rfl] at hshas
      omega
  · rintro ⟨rfl, rfl⟩
    have hnone : ∀ f, f ∉ pending r := fun f => hpending ▸ List.not_mem_nil
    exact ⟨by rw [hreported]; rfl, by rw [hreported]; rfl, fun f hf => absurd hf (hnone f), fun f hf => absurd hf (hnone f)⟩

/-- The commits a call reports are those it created, with their files and none pending,
    exactly when it fails before its loop, or the first plan that fails lands no commit and,
    after other plans, is cleaned up and no plan left names what they committed. -/
theorem landed_commits_booked_iff (plans : List CommitPlan) (expectedDiffHash : String) (settings : Settings)
    (history : List String) (rest : τ) (trace : List Event) :
    let out := (executeMultiCommitAndPush (scriptedHost script other) repoPath plans expectedDiffHash settings).run
      ⟨⟨history, 0, rest⟩, trace⟩
    ∃ created, out.2.world.history = history ++ created ∧
      (Booked script plans created out.1 ↔
        (script.reachesLoop other.sha256 plans expectedDiffHash → script.KeepsBooks plans)) := by
  intro out
  rcases executeMultiCommitAndPush_run script other repoPath plans expectedDiffHash settings history rest trace with
    ⟨hreaches, originalHead, trace', hout⟩ | ⟨hreaches, hworld, error, herror, hshas, hpending⟩
  · have hloop := commitPlans_run script other repoPath plans originalHead plans ⟨history, 0, rest⟩ trace' []
    rw [Action.run_bind] at hout
    cases hrun : (commitPlans (scriptedHost script other) repoPath plans originalHead 0 [] plans).run
      ⟨⟨history, 0, rest⟩, trace'⟩ with
    | mk r w =>
      simp only [hrun] at hloop hout
      cases hfailure : script.firstFailure 0 plans with
      | none =>
        simp only [hfailure, List.nil_append] at hloop
        obtain ⟨rfl, hhistory⟩ := hloop
        obtain ⟨hpushed, hreported, hpending⟩ := pushCommits_run script other repoPath settings
          (script.planned 0 plans) originalHead w.world w.trace
        refine ⟨_, (congrArg (·.2.world.history) hout).trans (hpushed.trans hhistory), ?_⟩
        have hnone : pending out.1 = [] := (congrArg (pending ·.1) hout).trans hpending
        refine iff_of_true ⟨?_, ?_, fun f hf => ?_, fun f hf => ?_⟩ (fun _ n hn => ?_)
        · exact congrArg (List.map (·.sha)) ((congrArg (reported ·.1) hout).trans hreported)
        · rw [planned_shas_length, List.take_length, ← planned_files script 0 plans]
          exact congrArg (List.map (·.files)) ((congrArg (reported ·.1) hout).trans hreported)
        · rw [hnone] at hf
          cases hf
        · rw [hnone] at hf
          cases hf
        · rw [hfailure] at hn
          cases hn
      | some n =>
        simp only [hfailure, Nat.zero_add, List.nil_append] at hloop
        obtain ⟨error, rfl, hhistory, hbooks⟩ := hloop
        have hn := firstFailure_lt script hfailure
        have hkeeps : script.KeepsBooks plans ↔
            (script.plan n).lands = false ∧ (n = 0 ∨ (script.cleanedUp 0 plans n = true ∧ script.Apart plans n)) := by
          constructor
          · intro h
            exact h n hfailure
          · intro h m hm
            rw [hfailure] at hm
            cases hm
            exact h
        have hreported : reported out.1 = error.committedShas := congrArg (reported ·.1) hout
        have hpending : pending out.1 = error.pendingFiles := congrArg (pending ·.1) hout
        refine ⟨_, (congrArg (·.2.world.history) hout).trans hhistory, ?_⟩
        rw [forall_prop_of_true hreaches, hkeeps]
        by_cases hcleaned : script.cleanedUp 0 plans n = true
        · rw [if_pos hcleaned] at hbooks
          rw [booked_failure script hn (script.plan n).lands hreaches.2.1 (hreported.trans hbooks.1)
            (hpending.trans hbooks.2)]
          constructor
          · intro h
            exact ⟨h.1, .inr ⟨hcleaned, h.2⟩⟩
          · rintro ⟨hlands, rfl | ⟨-, hleft⟩⟩
            · exact ⟨hlands, fun i plan hi => absurd hi (Nat.not_lt_zero i)⟩
            · exact ⟨hlands, hleft⟩
        · rw [if_neg hcleaned] at hbooks
          rw [booked_silence script hn (script.plan n).lands (hreported.trans hbooks.1) (hpending.trans hbooks.2)]
          exact ⟨fun h => ⟨h.1, .inl h.2⟩, fun h => ⟨h.1, h.2.resolve_right fun hcleans => hcleaned hcleans.1⟩⟩
  · refine ⟨[], (congrArg Scripted.history hworld).trans (List.append_nil _).symm, ?_⟩
    have hnone : pending out.1 = [] := (congrArg pending herror).trans hpending
    refine iff_of_true ⟨?_, ?_, fun f hf => ?_, fun f hf => ?_⟩ fun h => absurd h hreaches
    · exact congrArg (List.map (·.sha)) ((congrArg reported herror).trans hshas)
    · exact congrArg (List.map (·.files)) ((congrArg reported herror).trans hshas)
    · rw [hnone] at hf
      cases hf
    · rw [hnone] at hf
      cases hf

end Call

/-! ## A lost commit -/

def smoothPlan (sha : ObjectId) : PlanScript where
  sha := sha
  changed := [["a".toList], ["b".toList]]
  add := none
  writeMessage := .ok "message"
  commit := .created
  revParse := none
  reset := none
  status _ := .ok " M file"
  pathExists _ := .ok true
  lsFiles _ := .ok ""

/-- Both commits are created; the id of the second is not read. -/
def unreadScript : Script where
  tree := ⟨[['r']], some⟩
  diff := .ok "diff"
  originalHead := .ok "c0"
  firstReset := none
  plan i := if i = 0 then smoothPlan .ones
    else { smoothPlan .twos with revParse := some (plainError "cannot read HEAD") }

def stillHost : Host Unit where
  sha256 := id
  localeCompare _ _ := 0
  execSync _ _ := pure ""
  execFileGit _ _ _ := pure ""
  writeMessage _ _ := pure ""
  pathExists _ _ := pure true
  randomUUID := pure ""
  runTestCascade _ := pure ()

def twoPlans : List CommitPlan := ["a", "b"].map fun file => ⟨⟨"feat", none, "add " ++ file, none, false⟩, [file]⟩

def localSettings : Settings where
  provider := "p"
  model := "m"
  temperature := 0
  autoPush := false
  skipTests := true
  fallbackProvider := none
  fallbackModel := none
  thinking := none
  agent := none
  maxDiffChars := none

/-- The second commit is in the history; the error reports the first one only, and the
    second one's file as pending. -/
theorem unbooked_commit :
    let out := (executeMultiCommitAndPush (scriptedHost unreadScript stillHost) "/r" twoPlans "diff" localSettings).run
      ⟨⟨["c0"], 0, ()⟩, []⟩
    out.2.world.history = ["c0"] ++ [ObjectId.ones.text, ObjectId.twos.text] ∧ reported out.1 = [⟨ObjectId.ones.text, ["a"]⟩] ∧
      pending out.1 = ["b"] ∧ ¬ Booked unreadScript twoPlans [ObjectId.ones.text, ObjectId.twos.text] out.1 := by
  intro out
  have hout : out.2.world.history = ["c0", ObjectId.ones.text, ObjectId.twos.text] ∧ reported out.1 = [⟨ObjectId.ones.text, ["a"]⟩] ∧
      pending out.1 = ["b"] := by
    decide +kernel
  refine ⟨hout.1, hout.2.1, hout.2.2, fun h => ?_⟩
  have hshas := h.shas
  rw [hout.2.1] at hshas
  exact absurd hshas (by decide)

end GitCommitsPush.Publication
