/-
  GitCommitsPush.Publication.RetryCommands — the command lines of a retry.

  `queueRetry` issues three commands without names and, for the files it stages again,
  a `git diff` of each and a `git add` of some or all of them (`queueRetry_keeps`).
  Those with names are all issued (`queueRetry_diffs`, `queueRetry_adds`), so
  `queueRetry_commands_safe_iff`: a shell reads every command of a retry back as
  intended exactly when every file it stages again is plain.
-/

import GitCommitsPush.Publication.QueueRetry
import GitCommitsPush.Publication.QuotedNames

namespace GitCommitsPush.Publication

open GitCommitsPush.Lib.Effect
open GitCommitsPush.Lib.JsText
open GitCommitsPush.Lib.PosixShell

/-! ## The commands issued -/

def namelessCommands : List String := ["git add -A", "git diff --cached", "git reset HEAD"]

/-- The commands a retry of the files may issue. -/
def Issued (files : List String) (command : String) : Prop :=
  command ∈ namelessCommands ∨ (∃ f ∈ files, command = diffCommand f) ∨
    ∃ gs, gs ≠ [] ∧ gs.Sublist files ∧ command = addCommand gs

section Commands

variable {σ ε : Type} {host : Host σ} {cwd : String} {I : σ → Prop} {files : List String}

theorem Issued.nameless {command : String} (h : command ∈ namelessCommands) : Issued files command := .inl h

theorem Issued.diff {f : String} (h : f ∈ files) : Issued files (diffCommand f) := .inr (.inl ⟨f, h, rfl⟩)

theorem Issued.add {gs : List String} (hne : gs ≠ []) (h : gs.Sublist files) : Issued files (addCommand gs) :=
  .inr (.inr ⟨gs, hne, h, rfl⟩)

theorem inspectPending_spec (hI : ∀ f ∈ files, Action.Keeps I (host.execSync cwd (diffCommand f))) :
    Action.Triple I (inspectPending host cwd files : Action σ ε _)
      fun r s => I s ∧ ∃ out, r = .ok out ∧ out.1.Sublist files := by
  induction files with
  | nil =>
    intro s hs
    exact ⟨hs, ([], []), rfl, .slnil⟩
  | cons f files ih =>
    have hrest := ih fun g hg => hI g (List.mem_cons_of_mem _ hg)
    unfold inspectPending
    refine Action.Triple.bind_outcome (hI f List.mem_cons_self) ?_
    intro diff
    refine Action.Triple.bind hrest ?_ ?_
    · intro out
      refine Action.Triple.given fun hout => ?_
      obtain ⟨out', hout, hsub⟩ := hout
      cases hout
      refine Action.Triple.pure fun s hs => ⟨hs, _, rfl, ?_⟩
      cases diff with
      | error e => exact hsub.cons_cons f
      | ok text =>
        by_cases ht : text = ""
        · simp only [ht]
          exact hsub.cons_cons f
        · simp only [ne_eq, ht, not_false_eq_true, if_true]
          exact hsub.cons f
    · intro e s hs
      obtain ⟨-, out, hout, -⟩ := hs
      cases hout

theorem restageAndCapture_keeps {gs parts : List String} (hne : gs ≠ []) (hsub : gs.Sublist files)
    (hI : ∀ c, Issued files c → Action.Keeps I (host.execSync cwd c)) :
    Action.Keeps I (restageAndCapture host cwd gs parts) := by
  unfold restageAndCapture
  apply Action.Keeps.bind (hI _ (.add hne hsub))
  intro _
  apply Action.Keeps.bind (hI _ (.nameless (by decide)))
  intro _
  refine Action.Triple.bind_outcome (hI _ (.nameless (by decide))) ?_
  intro _
  exact Action.Keeps.pure _

theorem reconstructRemainingDiff_keeps {pending : Option (List String)}
    (hI : ∀ c, Issued (pending.getD []) c → Action.Keeps I (host.execSync cwd c)) :
    Action.Keeps I (reconstructRemainingDiff host cwd pending : Action σ ε String) := by
  unfold reconstructRemainingDiff
  split
  · rename_i f files
    refine Action.Triple.bind (inspectPending_spec fun g hg => hI _ (.diff hg)) ?_ ?_
    · intro out
      refine Action.Triple.given fun hout => ?_
      obtain ⟨out', hout, hsub⟩ := hout
      cases hout
      apply Action.Triple.ite
      · intro hne
        exact Action.Keeps.attempt (restageAndCapture_keeps hne hsub hI) fun _ => Action.Keeps.pure _
      · intro _
        exact Action.Keeps.pure _
    · intro e s hs
      exact hs.1
  · exact Action.Keeps.attempt (hI _ (.nameless (by decide))) fun _ => Action.Keeps.pure _

theorem issued_stageCommand (pending : Option (List String)) : Issued (pending.getD []) (stageCommand pending) := by
  unfold stageCommand
  split
  · exact .add (by simp) (List.Sublist.refl _)
  · exact .nameless (by decide)

theorem restageDiff_keeps {pending : Option (List String)} {text : String}
    (hI : ∀ c, Issued (pending.getD []) c → Action.Keeps I (host.execSync cwd c)) :
    Action.Keeps I (restageDiff host cwd pending text : Action σ ε String) := by
  unfold restageDiff
  apply Action.Keeps.attempt
  · apply Action.Keeps.bind (hI _ (issued_stageCommand pending))
    intro _
    exact hI _ (.nameless (by decide))
  · intro _
    exact Action.Keeps.pure _

/-- The command is issued: what holds after it and is kept holds in the end. -/
theorem inspectPending_issues {f : String} (hf : f ∈ files)
    (hc : Action.Triple (fun _ => True) (host.execSync cwd (diffCommand f)) fun _ s => I s)
    (hI : ∀ c, Issued files c → Action.Keeps I (host.execSync cwd c)) :
    Action.Triple (fun _ => True) (inspectPending host cwd files : Action σ ε _) fun _ s => I s := by
  induction files with
  | nil => cases hf
  | cons g files ih =>
    have hkeep : ∀ c ∈ files, Action.Keeps I (host.execSync cwd (diffCommand c)) :=
      fun c hc => hI _ (.diff (List.mem_cons_of_mem _ hc))
    unfold inspectPending
    by_cases hg : f = g
    · subst hg
      refine Action.Triple.bind_outcome hc fun diff => ?_
      refine Action.Triple.bind (inspectPending_spec hkeep) ?_ fun e s hs => hs.1
      intro out
      exact Action.Triple.given fun _ => Action.Triple.pure fun s hs => hs
    · have hrest : ∀ c, Issued files c → Action.Keeps I (host.execSync cwd c) := by
        intro c hc
        apply hI
        rcases hc with h | ⟨d, hd, rfl⟩ | ⟨ds, hne, hd, rfl⟩
        · exact .nameless h
        · exact .diff (List.mem_cons_of_mem _ hd)
        · exact .add hne (hd.cons g)
      refine Action.Triple.bind_outcome Action.Triple.trivial fun diff => ?_
      refine Action.Triple.bind (ih ((List.mem_cons.mp hf).resolve_left hg) hrest) ?_ fun e s hs => hs
      intro out
      exact Action.Triple.pure fun s hs => hs

theorem reconstructRemainingDiff_issues {pending : Option (List String)} {f : String} (hf : f ∈ pending.getD [])
    (hc : Action.Triple (fun _ => True) (host.execSync cwd (diffCommand f)) fun _ s => I s)
    (hI : ∀ c, Issued (pending.getD []) c → Action.Keeps I (host.execSync cwd c)) :
    Action.Triple (fun _ => True) (reconstructRemainingDiff host cwd pending : Action σ ε String) fun _ s => I s := by
  match pending, hf with
  | some (g :: gs), hf =>
    -- the outcome of the loop says which files are added, so both facts are needed of it
    have hloop : Action.Triple (fun _ => True) (inspectPending host cwd (g :: gs) : Action σ ε _)
        fun r s => I s ∧ ∃ out, r = .ok out ∧ out.1.Sublist (g :: gs) := fun s hs =>
      ⟨inspectPending_issues hf hc hI s hs, (inspectPending_spec (I := fun _ => True) (fun _ _ => Action.Triple.trivial) s hs).2⟩
    unfold reconstructRemainingDiff
    refine Action.Triple.bind hloop ?_ fun e s hs => hs.1
    intro out
    refine Action.Triple.given fun hout => ?_
    obtain ⟨out', hout, hsub⟩ := hout
    cases hout
    apply Action.Triple.ite
    · intro hne
      exact Action.Keeps.attempt (restageAndCapture_keeps hne hsub hI) fun _ => Action.Keeps.pure _
    · intro _
      exact Action.Keeps.pure _

/-- Falls back to the text it has, so never throws. -/
theorem reconstructRemainingDiff_returns (pending : Option (List String)) :
    Action.Triple (fun _ => True) (reconstructRemainingDiff host cwd pending : Action σ ε String)
      fun r _ => ∃ text, r = .ok text := by
  have hfallback : ∀ (x : Action σ ExecError String) (text : String), Action.Triple (fun _ => True)
      (x.attempt fun _ => pure text : Action σ ε String) fun r _ => ∃ text, r = .ok text := by
    intro x text
    exact Action.Triple.attempt Action.Triple.trivial (fun a _ _ => ⟨a, rfl⟩) fun _ => Action.Triple.pure fun _ _ => ⟨_, rfl⟩
  unfold reconstructRemainingDiff
  split
  · refine Action.Triple.bind (inspectPending_spec (I := fun _ => True) fun _ _ => Action.Triple.trivial) ?_ ?_
    · intro out
      refine Action.Triple.given fun _ => ?_
      apply Action.Triple.ite
      · intro _
        exact hfallback _ _
      · intro _
        exact Action.Triple.pure fun _ _ => ⟨_, rfl⟩
    · intro e s hs
      obtain ⟨-, out, hout, -⟩ := hs
      cases hout
  · exact hfallback _ _

theorem restageDiff_issues {pending : Option (List String)} {text : String}
    (hc : Action.Triple (fun _ => True) (host.execSync cwd (stageCommand pending)) fun _ s => I s)
    (hI : ∀ c, Issued (pending.getD []) c → Action.Keeps I (host.execSync cwd c)) :
    Action.Triple (fun _ => True) (restageDiff host cwd pending text : Action σ ε String) fun _ s => I s := by
  refine Action.Triple.attempt (Q := fun _ s => I s) ?_ (fun _ _ h => h) fun _ => Action.Keeps.pure _
  refine Action.Triple.bind hc ?_ fun _ _ h => h
  intro _
  exact hI _ (.nameless (by decide))

end Commands

/-! ## `queueRetry` -/

/-- The retry stages the repository again. -/
def restages (repoState : RepoState) (errors : List FeedbackError) (failedPlans : List CommitPlan) : Bool :=
  repoState.diffHash.getD "" != "" && !isMessageRepair errors failedPlans

/-- The files a retry stages again. -/
def restagedFiles (repoState : RepoState) (errors : List FeedbackError) (options : QueueRetryOptions)
    (failedPlans : List CommitPlan) : List String :=
  if restages repoState errors failedPlans then (filterPending repoState options).getD [] else []

section Retry

variable {σ : Type} {host : Host σ} {I : σ → Prop} (repoId : String) (repoState : RepoState)
  (errors : List FeedbackError) (options : QueueRetryOptions) (settings : Settings) (systemPrompt : String)
  (failedPlans : List CommitPlan)

theorem queueRetry_keeps (hI : ∀ c, Issued (restagedFiles repoState errors options failedPlans) c →
      Action.Keeps I (host.execSync repoState.repository c)) :
    Action.Keeps I (queueRetry host repoId repoState errors options settings systemPrompt failedPlans) := by
  unfold queueRetry
  apply Action.Triple.ite
  · intro _
    exact Action.Keeps.throw _
  intro hhash
  apply Action.Triple.ite
  · intro _
    split
    · exact Action.Keeps.pure _
    · exact Action.Keeps.throw _
  intro hrepair
  have hr : restages repoState errors failedPlans = true := by
    rw [restages, Bool.eq_false_iff.mpr hrepair]
    simpa using hhash
  simp only [restagedFiles, hr, if_true] at hI
  apply Action.Keeps.bind (reconstructRemainingDiff_keeps hI)
  intro remainingDiff
  apply Action.Keeps.bind (restageDiff_keeps hI)
  intro actualDiff
  exact Action.Keeps.pure _

variable {repoState errors options failedPlans}

theorem queueRetry_restages (hr : restages repoState errors failedPlans = true) :
    queueRetry host repoId repoState errors options settings systemPrompt failedPlans = (do
      let pendingFiles := filterPending repoState options
      let remainingDiff ← reconstructRemainingDiff host repoState.repository pendingFiles
      let actualDiff ← restageDiff host repoState.repository pendingFiles remainingDiff
      return queueReplan host repoId repoState errors options settings systemPrompt failedPlans pendingFiles actualDiff) := by
  simp only [restages, Bool.and_eq_true, bne_iff_ne, ne_eq, Bool.not_eq_true'] at hr
  rw [queueRetry, if_neg hr.1, if_neg (by rw [hr.2]; decide)]

theorem restages_of_mem {f : String} (hf : f ∈ restagedFiles repoState errors options failedPlans) :
    restages repoState errors failedPlans = true ∧
      restagedFiles repoState errors options failedPlans = (filterPending repoState options).getD [] := by
  unfold restagedFiles at hf ⊢
  by_cases hr : restages repoState errors failedPlans = true
  · exact ⟨hr, if_pos hr⟩
  · rw [if_neg hr] at hf
    cases hf

theorem queueRetry_diffs {f : String} (hf : f ∈ restagedFiles repoState errors options failedPlans)
    (hc : Action.Triple (fun _ => True) (host.execSync repoState.repository (diffCommand f)) fun _ s => I s)
    (hI : ∀ c, Issued (restagedFiles repoState errors options failedPlans) c →
      Action.Keeps I (host.execSync repoState.repository c)) :
    Action.Triple (fun _ => True) (queueRetry host repoId repoState errors options settings systemPrompt failedPlans)
      fun _ s => I s := by
  obtain ⟨hr, hfiles⟩ := restages_of_mem hf
  rw [hfiles] at hf hI
  rw [queueRetry_restages repoId settings systemPrompt hr]
  refine Action.Triple.bind (reconstructRemainingDiff_issues hf hc hI) ?_ fun _ _ h => h
  intro remainingDiff
  apply Action.Keeps.bind (restageDiff_keeps hI)
  intro actualDiff
  exact Action.Keeps.pure _

theorem queueRetry_adds {f : String} (hf : f ∈ restagedFiles repoState errors options failedPlans)
    (hc : Action.Triple (fun _ => True)
      (host.execSync repoState.repository (addCommand (restagedFiles repoState errors options failedPlans))) fun _ s => I s)
    (hI : ∀ c, Issued (restagedFiles repoState errors options failedPlans) c →
      Action.Keeps I (host.execSync repoState.repository c)) :
    Action.Triple (fun _ => True) (queueRetry host repoId repoState errors options settings systemPrompt failedPlans)
      fun _ s => I s := by
  obtain ⟨hr, hfiles⟩ := restages_of_mem hf
  rw [hfiles] at hf hI hc
  have hstage : stageCommand (filterPending repoState options) = addCommand ((filterPending repoState options).getD []) := by
    cases hp : filterPending repoState options with
    | none => rw [hp] at hf; cases hf
    | some files =>
      cases files with
      | nil => rw [hp] at hf; cases hf
      | cons g gs => rfl
  rw [← hstage] at hc
  rw [queueRetry_restages repoId settings systemPrompt hr]
  refine Action.Triple.bind (reconstructRemainingDiff_returns _) ?_ ?_
  · intro remainingDiff
    refine Action.Triple.bind ((restageDiff_issues hc hI).conseq (fun _ _ => True.intro) fun _ _ h => h) ?_ fun _ _ h => h
    intro actualDiff
    exact Action.Keeps.pure _
  · intro e s h
    obtain ⟨text, h⟩ := h
    cases h

end Retry

/-! ## What the shell reads -/

/-- Not a command line of a shell. -/
def unrecorded {σ ε α : Type} (x : Action σ ε α) : Action (σ × List String) ε α := fun w =>
  let r := x.run w.1
  (r.1, r.2, w.2)

/-- The host with a record of the command lines given to a shell. -/
def recording {σ : Type} (host : Host σ) : Host (σ × List String) where
  sha256 := host.sha256
  localeCompare := host.localeCompare
  execSync cwd command := fun w =>
    let r := host.execSync cwd command w.1
    (r.1, r.2, w.2 ++ [command])
  execFileGit cwd args processConfig := unrecorded (host.execFileGit cwd args processConfig)
  writeMessage i message := unrecorded (host.writeMessage i message)
  pathExists cwd file := unrecorded (host.pathExists cwd file)
  randomUUID := unrecorded host.randomUUID
  runTestCascade repository := unrecorded (host.runTestCascade repository)

/-- The command lines `x` gives to a shell, from `s`. -/
def commandsOf {σ ε α : Type} (x : Action (σ × List String) ε α) (s : σ) : List String := (x.run (s, [])).2.2

/-- One simple command of the words intended; `files` are the names at hand. -/
def ShellSafe (files : List String) (command : String) : Prop :=
  command ∈ namelessCommands ∨ (∃ f ∈ files, command = diffCommand f ∧ Runs command ["git", "diff", "--", f]) ∨
    ∃ gs, gs ≠ [] ∧ gs.Sublist files ∧ command = addCommand gs ∧ Runs command ("git" :: "add" :: "--" :: gs)

theorem escapedChars_inj {cs ds : List Char} (h : escapedChars cs = escapedChars ds) : cs = ds := by
  have hhead : ∀ es rest : List Char, escapedChars es ≠ '"' :: rest := by
    intro es rest he
    cases es with
    | nil => cases he
    | cons e es =>
      by_cases hq : e = '"'
      · subst hq; cases he
      · rw [escapedChars_cons hq] at he
        exact hq (List.cons.inj he).1
  induction cs generalizing ds with
  | nil =>
    cases ds with
    | nil => rfl
    | cons d ds =>
      by_cases hd : d = '"'
      · subst hd; cases h
      · rw [escapedChars_cons hd] at h; cases h
  | cons c cs ih =>
    cases ds with
    | nil =>
      by_cases hc : c = '"'
      · subst hc; cases h
      · rw [escapedChars_cons hc] at h; cases h
    | cons d ds =>
      by_cases hc : c = '"' <;> by_cases hd : d = '"'
      · subst hc hd
        rw [ih (List.cons.inj (List.cons.inj h).2).2]
      · subst hc
        rw [escapedChars_cons hd] at h
        exact absurd (List.cons.inj h).2.symm (hhead ds _)
      · subst hd
        rw [escapedChars_cons hc] at h
        exact absurd (List.cons.inj h).2 (hhead cs _)
      · rw [escapedChars_cons hc, escapedChars_cons hd] at h
        obtain ⟨rfl, htail⟩ := List.cons.inj h
        rw [ih htail]

theorem diffCommand_inj {f g : String} (h : diffCommand f = diffCommand g) : f = g := by
  have h := congrArg String.toList h
  simp only [diffCommand, escapeDoubleQuotes, String.toList_append, String.toList_ofList, List.append_cancel_left_eq,
    List.append_cancel_right_eq] at h
  exact String.toList_inj.mp (escapedChars_inj h)

theorem commands_ne (f : String) (gs : List String) : diffCommand f ≠ addCommand gs := by
  intro h
  have h := congrArg String.toList h
  simp only [diffCommand, addCommand, String.toList_append] at h
  cases (List.cons.inj (List.cons.inj (List.cons.inj (List.cons.inj (List.cons.inj h).2).2).2).2).1

theorem diffCommand_nameless (f : String) : diffCommand f ∉ namelessCommands := by
  intro h
  have h : diffCommand f = "git add -A" ∨ diffCommand f = "git diff --cached" ∨ diffCommand f = "git reset HEAD" := by
    simpa [namelessCommands] using h
  rcases h with h | h | h <;> have h := congrArg String.toList h <;> simp [diffCommand, String.toList_append] at h

/-- A command of the retry is safe exactly when its names are plain. -/
theorem shellSafe_diff {files : List String} {f : String} :
    ShellSafe files (diffCommand f) ↔ f ∈ files ∧ plainInDiff f.toList = true := by
  constructor
  · intro h
    rcases h with h | ⟨g, hg, heq, hruns⟩ | ⟨gs, -, -, heq, -⟩
    · exact absurd h (diffCommand_nameless f)
    · obtain rfl := diffCommand_inj heq
      exact ⟨hg, (diffCommand_runs_iff f).mp hruns⟩
    · exact absurd heq (commands_ne f gs)
  · intro h
    exact .inr (.inl ⟨f, h.1, rfl, (diffCommand_runs_iff f).mpr h.2⟩)

theorem shellSafe_add {files gs : List String} (hne : gs ≠ []) (hsub : gs.Sublist files)
    (h : ∀ g ∈ gs, plainInAdd g.toList = true) : ShellSafe files (addCommand gs) := by
  match gs with
  | g :: gs => exact .inr (.inr ⟨g :: gs, hne, hsub, rfl, (addCommand_runs_iff g gs).mpr h⟩)

theorem addCommand_nameless (files : List String) : addCommand files ∉ namelessCommands := by
  intro h
  have h : addCommand files = "git add -A" ∨ addCommand files = "git diff --cached" ∨ addCommand files = "git reset HEAD" := by
    simpa [namelessCommands] using h
  rcases h with h | h | h <;> have h := congrArg String.toList h <;> simp [addCommand, String.toList_append] at h

/-- Adding all the files is safe only when all their names are plain: a shell that reads
    fewer names out of the same line would read a different number of words. -/
theorem plain_of_shellSafe_add {f : String} {files : List String} (h : ShellSafe (f :: files) (addCommand (f :: files))) :
    ∀ g ∈ f :: files, plainInAdd g.toList = true := by
  rcases h with h | ⟨g, -, heq, -⟩ | ⟨gs, -, hsub, -, hruns⟩
  · exact absurd h (addCommand_nameless _)
  · exact absurd heq.symm (commands_ne g _)
  · have hwords := words_addCommand f files
    rw [Runs] at hruns
    rw [hruns] at hwords
    split at hwords
    · cases hwords
    · have hlen := congrArg List.length (Option.some.inj hwords)
      have hgs : gs = f :: files := hsub.eq_of_length (by simpa using hlen)
      subst hgs
      exact (addCommand_runs_iff f files).mp hruns

section Safe

variable {σ : Type} (host : Host σ) (s : σ) (repoId : String) (repoState : RepoState) (errors : List FeedbackError)
  (options : QueueRetryOptions) (settings : Settings) (systemPrompt : String) (failedPlans : List CommitPlan)

theorem recording_keeps {P : String → Prop} {command : String} (hP : P command) (cwd : String) :
    Action.Keeps (fun w => ∀ c ∈ w.2, P c) ((recording host).execSync cwd command) := by
  intro w hw c hc
  rcases List.mem_append.mp hc with h | h
  · exact hw c h
  · rw [List.mem_singleton.mp h]
    exact hP

theorem recording_logs (cwd command : String) :
    Action.Triple (fun _ => True) ((recording host).execSync cwd command) fun _ w => command ∈ w.2 := by
  intro w _
  exact List.mem_append_right _ List.mem_cons_self

theorem recording_keeps_log (cwd command c : String) :
    Action.Keeps (fun w => c ∈ w.2) ((recording host).execSync cwd command) := by
  intro w hw
  exact List.mem_append_left _ hw

/-- The command lines of a retry. -/
def retryCommands : List String :=
  commandsOf (queueRetry (recording host) repoId repoState errors options settings systemPrompt failedPlans) s

/-- A shell reads every command line of a retry back as intended exactly when every
    file the retry stages again has a plain name. -/
theorem queueRetry_commands_safe_iff :
    (∀ command ∈ retryCommands host s repoId repoState errors options settings systemPrompt failedPlans,
      ShellSafe (restagedFiles repoState errors options failedPlans) command) ↔
    ∀ f ∈ restagedFiles repoState errors options failedPlans, Plain f := by
  constructor
  · intro hsafe f hf
    have hdiff : diffCommand f ∈ retryCommands host s repoId repoState errors options settings systemPrompt failedPlans :=
      queueRetry_diffs repoId settings systemPrompt hf (recording_logs host _ _)
        (fun c _ => recording_keeps_log host _ c _) (s, []) True.intro
    have hadd : addCommand (restagedFiles repoState errors options failedPlans) ∈
        retryCommands host s repoId repoState errors options settings systemPrompt failedPlans :=
      queueRetry_adds repoId settings systemPrompt hf (recording_logs host _ _)
        (fun c _ => recording_keeps_log host _ c _) (s, []) True.intro
    have hadd := hsafe _ hadd
    have hplain := (shellSafe_diff.mp (hsafe _ hdiff)).2
    cases hfiles : restagedFiles repoState errors options failedPlans with
    | nil => rw [hfiles] at hf; cases hf
    | cons g gs =>
      rw [hfiles] at hadd hf
      exact ⟨plain_of_shellSafe_add hadd f hf, hplain⟩
  · intro hplain
    refine @queueRetry_keeps _ (recording host) (fun w => ∀ c ∈ w.2, ShellSafe (restagedFiles repoState errors options
      failedPlans) c) repoId repoState errors options settings systemPrompt failedPlans ?_ (s, [])
      (fun c hc => by cases hc)
    intro c hc
    apply recording_keeps
    rcases hc with h | ⟨f, hf, rfl⟩ | ⟨gs, hne, hsub, rfl⟩
    · exact .inl h
    · exact shellSafe_diff.mpr ⟨hf, (hplain f hf).2⟩
    · exact shellSafe_add hne hsub fun g hg => (hplain g (hsub.subset hg)).1

end Safe

/-- Every command succeeds and prints nothing. -/
def quietHost : Host Unit where
  sha256 _ := "h"
  localeCompare _ _ := 0
  execSync _ _ := pure ""
  execFileGit _ _ _ := pure ""
  writeMessage _ _ := pure ""
  pathExists _ _ := pure true
  randomUUID := pure ""
  runTestCascade _ := pure ()

/-- After a commit hook rejected the one planned file, a shell runs the name of the file. -/
theorem retry_of_substitution_unsafe :
    ¬ ∀ command ∈ retryCommands quietHost () "repo"
          { repository := "/repo", status := .RUNNING, operation := some .commitAndPush, diffHash := some "h" }
          [{ kind := .git, message := "hook declined" }] ⟨none, some ["$(touch injected)"]⟩
          ⟨"ollama", "model", 0, true, true, none, none, none, none, none⟩ "" [],
        ShellSafe ["$(touch injected)"] command := by
  intro h
  have hsafe := h (diffCommand "$(touch injected)") (by decide)
  have hplain := (shellSafe_diff.mp hsafe).2
  exact absurd hplain (by decide)

end GitCommitsPush.Publication
