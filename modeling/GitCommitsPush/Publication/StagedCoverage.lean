/-
  GitCommitsPush.Publication.StagedCoverage — the staged paths a publication commits.

  `executeMultiCommitAndPush` asks that no two plans name one file. That every staged file is
  in some plan it leaves to the planner. A path that differs from HEAD when a publication
  starts is changed by one of its commits when a plan names it (`executeMultiCommitAndPush_covers`):
  the loop's invariant is that the path is changed by a commit, or differs from HEAD still
  and no commit of the loop has named it.
-/

import GitCommitsPush.Publication.Submodules

namespace GitCommitsPush.Publication

open GitCommitsPush.Lib.Effect
open GitCommitsPush.Lib.JsText
open GitCommitsPush.Lib.Trace (lifted lifted_eq_ok note)

/-! ## What Git has of a repository -/

/-- Trees are read at a path: the content there, as Git stores it, or nothing. -/
structure CheckoutView (σ : Type) where
  head : σ → String → Option String
  index : σ → String → Option String
  worktree : σ → String → Option String
  headSha : σ → String
  /-- The commit exists and changes the path. -/
  changes : σ → String → String → Prop
  /-- The diff changes the path. -/
  shows : String → String → Prop

namespace CheckoutView

variable {σ : Type} (view : CheckoutView σ)

/-- The working tree differs from HEAD at the path. -/
def Differs (w : σ) (p : String) : Prop := view.head w p ≠ view.worktree w p

/-- Only the index may move. -/
structure Still (w w' : σ) : Prop where
  head : view.head w' = view.head w
  worktree : view.worktree w' = view.worktree w
  headSha : view.headSha w' = view.headSha w

variable {view} {w w' : σ} {p : String}

theorem Differs.still (h : view.Differs w p) (hstill : view.Still w w') : view.Differs w' p := by
  unfold Differs
  rw [hstill.head, hstill.worktree]
  exact h

end CheckoutView

/-- Git in the repository. `named` are the lists of files that name a path, or a directory
    above it. A commit takes the index; what it changes stays so. -/
structure HasCheckout {σ : Type} (host : Host σ) (view : CheckoutView σ) (repository : String)
    (named : List String → String → Bool) : Prop where
  diff : ∀ w out w', (host.execSync repository "git diff --cached").run w = (.ok out, w') →
    ∀ p, view.shows out p ↔ view.index w p ≠ view.head w p
  shell : ∀ command w, PhaseCommand command → view.Still w ((host.execSync repository command).run w).2
  readHead : ∀ w out w', (host.execSync repository "git rev-parse HEAD").run w = (.ok out, w') →
    trimString out = view.headSha w
  add : ∀ files w out w', (host.execFileGit repository (["--literal-pathspecs", "add", "--"] ++ files) []).run w =
    (.ok out, w') → view.Still w w' ∧ ∀ p, named files p = true → view.index w' p = view.worktree w p
  commit : ∀ message w out w',
    (host.execFileGit repository ["commit", "--file", message, "--no-verify"] []).run w = (.ok out, w') →
    view.head w' = view.index w ∧ view.worktree w' = view.worktree w ∧
      ∀ p, view.head w' p ≠ view.head w p → view.changes w' (view.headSha w') p
  writeMessage : ∀ i message w, let w' := ((host.writeMessage i message).run w).2
    view.Still w w' ∧ view.index w' = view.index w
  lasting : ∀ sha p, KeptBy host (fun w => view.changes w sha p) fun _ => True

section Host

variable {σ : Type} {host : Host σ} {view : CheckoutView σ} {repository : String} {named : List String → String → Bool}
  {p : String}

/-! ## The commit loop -/

/-- One of the commits changes the path. -/
def Changed (view : CheckoutView σ) (shas : List CommittedSha) (w : σ) (p : String) : Prop :=
  ∃ c ∈ shas, view.changes w c.sha p

/-- A commit changes the path, or it still differs from HEAD and no commit named it. -/
def Tracked (view : CheckoutView σ) (named : List String → String → Bool) (p : String) (landed : List CommittedSha)
    (w : Traced σ) : Prop :=
  Changed view landed w.world p ∨ (view.Differs w.world p ∧ ∀ c ∈ landed, named c.files p = false)

theorem Changed.append {landed : List CommittedSha} {w : σ} (h : Changed view landed w p) (more : List CommittedSha) :
    Changed view (landed ++ more) w p := by
  obtain ⟨c, hmem, hchanges⟩ := h
  exact ⟨c, List.mem_append_left _ hmem, hchanges⟩

/-- What keeps the changes of every commit keeps `Changed`. -/
theorem Changed.keeps {ε α : Type} {x : Action (Traced σ) ε α}
    (hx : ∀ sha, Action.Keeps (Below fun w => view.changes w sha p) x) (shas : List CommittedSha) :
    Action.Keeps (Below fun w => Changed view shas w p) x := by
  intro w hw
  obtain ⟨c, hmem, hchanges⟩ := hw
  exact ⟨c, hmem, hx c.sha w hchanges⟩

/-- A path that is staged and differs from HEAD is changed by the commit. -/
theorem commitPlan_tracked (h : HasCheckout host view repository named) {i : Nat} {plan : CommitPlan}
    {landed : List CommittedSha} {committed : CommittedSha} {w w' : Traced σ} (hw : Tracked view named p landed w)
    (hrun : (commitPlan host repository i plan).run w = (.ok committed, w')) :
    Tracked view named p (landed ++ [committed]) w' := by
  rcases hw with hchanged | ⟨hdiffers, hunnamed⟩
  · refine .inl (Changed.append ?_ _)
    have hkeeps : ∀ sha, Action.Keeps (Below fun w => view.changes w sha p) (commitPlan host repository i plan) :=
      fun sha => (h.lasting sha p).commitPlan True.intro i plan
    have hkept := Changed.keeps hkeeps landed w hchanged
    rw [hrun] at hkept
    exact hkept
  obtain ⟨staged, w₁, message, w₂, created, w₃, stdout, hadd, hmessage, hcommit, hread, rfl⟩ :=
    commitPlan_ok host repository hrun
  obtain ⟨hstill₁, hindex₁⟩ := h.add plan.files _ staged w₁ hadd
  have hwritten := h.writeMessage i (formatConventionalCommit plan.commit) w₁
  rw [hmessage] at hwritten
  obtain ⟨hstill₂, hindex₂⟩ := hwritten
  obtain ⟨hhead₃, hworktree₃, hchanges₃⟩ := h.commit message w₂ created w₃ hcommit
  have hstill₃ := h.shell "git rev-parse HEAD" w₃ (.inl rfl)
  have hdiffers₂ : view.Differs w₂ p := (hdiffers.still hstill₁).still hstill₂
  by_cases hmoved : view.head w₃ p = view.head w₂ p
  · -- the commit left the path alone: it was not staged, so the plan does not name it
    have hstill : view.Differs w'.world p := by
      rw [hread] at hstill₃
      refine CheckoutView.Differs.still ?_ hstill₃
      unfold CheckoutView.Differs
      rw [hmoved, hworktree₃]
      exact hdiffers₂
    refine .inr ⟨hstill, fun c hc => ?_⟩
    rcases List.mem_append.mp hc with hc | hc
    · exact hunnamed c hc
    · cases List.mem_singleton.mp hc
      rw [Bool.eq_false_iff]
      intro hnamed
      have hstaged : view.head w₃ p = view.worktree w₂ p := by
        calc view.head w₃ p = view.index w₂ p := by rw [hhead₃]
          _ = view.index w₁ p := by rw [hindex₂]
          _ = view.worktree w.world p := hindex₁ p hnamed
          _ = view.worktree w₂ p := by rw [hstill₂.worktree, hstill₁.worktree]
      exact hdiffers₂ (hmoved ▸ hstaged)
  · refine .inl ⟨_, List.mem_append_right _ List.mem_cons_self, ?_⟩
    have hchanges := hchanges₃ p hmoved
    rw [← h.readHead w₃ stdout _ hread] at hchanges
    have hkept := (h.lasting (trimString stdout) p).shell repository "git rev-parse HEAD" (.inl rfl) w₃ hchanges
    rw [hread] at hkept
    exact hkept

/-- The index alone is reset. -/
theorem HasCheckout.reset (h : HasCheckout host view repository named) (landed : List CommittedSha) :
    Action.Keeps (Tracked view named p landed) (lifted (host.gitExec "reset HEAD" repository)) := by
  intro w hw
  rcases hw with hchanged | ⟨hdiffers, hunnamed⟩
  · exact .inl (Changed.keeps (fun sha => lifted_keeps ((h.lasting sha p).reset repository)) landed w hchanged)
  · have hstill : Action.Keeps (fun w => view.Differs w p) (host.gitExec "reset HEAD" repository) :=
      Action.Keeps.bind (fun w hw => hw.still (h.shell _ w (.inr ⟨[], .nameless (by decide)⟩))) fun _ => Action.Keeps.pure _
    exact .inr ⟨lifted_keeps hstill w hdiffers, hunnamed⟩

/-- What the loop reports tracks the path, and has the files of the plans. -/
theorem commitPlans_tracked (h : HasCheckout host view repository named) {plans : List CommitPlan} {originalHead : String}
    (rest : List CommitPlan) {i : Nat} {landed shas : List CommittedSha} {w w' : Traced σ}
    (hw : Tracked view named p landed w)
    (hrun : (commitPlans host repository plans originalHead i landed rest).run w = (.ok shas, w')) :
    Tracked view named p shas w' ∧ shas.map (·.files) = landed.map (·.files) ++ rest.map (·.files) := by
  induction rest generalizing i landed w with
  | nil =>
    cases hrun
    exact ⟨hw, (List.append_nil _).symm⟩
  | cons plan rest ih =>
    unfold commitPlans at hrun
    rw [Action.run_bind, Action.run_outcome] at hrun
    cases hplan : (commitPlan host repository i plan).run w with
    | mk r w₁ =>
      rw [hplan] at hrun
      cases r with
      | error commitErr =>
        obtain ⟨failure, w₂, -, hthrow⟩ := Action.run_bind_eq_ok hrun
        cases failure <;> cases hthrow
      | ok committed =>
        obtain ⟨_, _, _, _, _, _, _, -, -, -, -, hfiles⟩ := commitPlan_ok host repository hplan
        have hlanded := commitPlan_tracked h hw hplan
        obtain ⟨reset, w₂, hreset, hrest⟩ := Action.run_bind_eq_ok hrun
        have hkept := h.reset (landed ++ [committed]) w₁ hlanded
        rw [Action.run_outcome] at hreset
        cases hreset
        obtain ⟨htracked, hmap⟩ := ih hkept hrest
        refine ⟨htracked, ?_⟩
        rw [hmap, hfiles]
        simp

/-! ## A publication -/

/-- One of the plans names the path. -/
def Planned (named : List String → String → Bool) (plans : List CommitPlan) (p : String) : Prop :=
  ∃ plan ∈ plans, named plan.files p = true

theorem Tracked.changed {plans : List CommitPlan} {shas : List CommittedSha} {w : Traced σ}
    (h : Tracked view named p shas w) (hmap : shas.map (·.files) = plans.map (·.files)) (hplanned : Planned named plans p) :
    Changed view shas w.world p := by
  obtain ⟨plan, hmem, hnamed⟩ := hplanned
  have hfiles : plan.files ∈ shas.map (·.files) := hmap ▸ List.mem_map_of_mem hmem
  obtain ⟨c, hc, hsame⟩ := List.mem_map.mp hfiles
  rcases h with hchanged | ⟨-, hunnamed⟩
  · exact hchanged
  · have hnot := hunnamed c hc
    rw [hsame, hnamed] at hnot
    cases hnot

/-- A path that differs from HEAD and is planned is changed by a commit of the publication. -/
theorem executeMultiCommitAndPush_covers (h : HasCheckout host view repository named) {plans : List CommitPlan}
    {expectedDiffHash : String} {settings : Settings} {published : Published} {w w' : Traced σ}
    (hdiffers : view.Differs w.world p) (hplanned : Planned named plans p)
    (hrun : (executeMultiCommitAndPush host repository plans expectedDiffHash settings).run w = (.ok published, w')) :
    Changed view published.committedShas w'.world p := by
  have hshell : ∀ command, PhaseCommand command →
      Action.Keeps (fun w => view.Differs w p) (host.execSync repository command) :=
    fun command hcommand w hw => hw.still (h.shell command w hcommand)
  have hguard : Action.Keeps (Below fun w => view.Differs w p) (guardDiffHash host repository expectedDiffHash) := by
    unfold guardDiffHash
    apply Action.Keeps.ite
    · intro _
      exact Action.Keeps.pure _
    intro _
    refine Action.Keeps.bind (KeptBy.unwrapped (hshell _ (.inr ⟨[], .nameless (by decide)⟩))) fun _ => ?_
    apply Action.Keeps.ite
    · intro _
      exact Action.Keeps.throw _
    · intro _
      exact Action.Keeps.pure _
  have hreset : Action.Keeps (Below fun w => view.Differs w p) (unwrapped (host.gitExec "reset HEAD" repository)) :=
    KeptBy.unwrapped (Action.Keeps.bind (hshell _ (.inr ⟨[], .nameless (by decide)⟩)) fun _ => Action.Keeps.pure _)
  unfold executeMultiCommitAndPush at hrun
  obtain ⟨_, w₀, hnote, hrun⟩ := Action.run_bind_eq_ok hrun
  cases hnote
  split at hrun
  · cases hrun
  cases hduplicate : firstDuplicate [] (plans.flatMap (·.files)) with
  | some file =>
    rw [hduplicate] at hrun
    cases hrun
  | none =>
    rw [hduplicate] at hrun
    obtain ⟨_, w₁, hguarded, hrun⟩ := Action.run_bind_eq_ok hrun
    obtain ⟨head, w₂, hhead, hrun⟩ := Action.run_bind_eq_ok hrun
    obtain ⟨_, w₃, hrested, hrun⟩ := Action.run_bind_eq_ok hrun
    obtain ⟨shas, w₄, hloop, hrun⟩ := Action.run_bind_eq_ok hrun
    have hdiffers₁ := hguard ⟨w.world, w.trace ++ [.executing repository expectedDiffHash]⟩ hdiffers
    rw [hguarded] at hdiffers₁
    have hdiffers₂ := KeptBy.unwrapped (hshell "git rev-parse HEAD" (.inl rfl)) w₁ hdiffers₁
    rw [hhead] at hdiffers₂
    have hdiffers₃ := hreset w₂ hdiffers₂
    rw [hrested] at hdiffers₃
    obtain ⟨htracked, hmap⟩ := commitPlans_tracked h plans (.inr ⟨hdiffers₃, fun c hc => by cases hc⟩) hloop
    have hchanged := htracked.changed hmap hplanned
    have hpushed := Changed.keeps (fun sha => (h.lasting sha p).pushCommits repository settings shas (trimString head))
      shas w₄ hchanged
    obtain ⟨events, -, hreports⟩ := pushCommits_emits host repository settings shas (trimString head) w₄
    rw [hrun] at hpushed hreports
    rw [hreports.1]
    exact hpushed

end Host

end GitCommitsPush.Publication
