/-
  GitCommitsPush.Publication.CommittedContent — what the commits of a publication are made of.

  The guard compares the hash of the staged diff; the commits are then made of the working
  tree. Where nobody else moves HEAD or the index, and each planned path keeps in the working
  tree what is staged of it, or what HEAD has, every commit gives the paths it changes the
  content that was compared (`executeMultiCommitAndPush_staged`). The loop's invariant is
  that a path has in the index what HEAD has or what was staged (`Rebuilt`).
-/

import GitCommitsPush.Publication.PublisherTrace
import GitCommitsPush.Publication.ResultKeeps
import GitCommitsPush.Publication.StagedCoverage

namespace GitCommitsPush.Publication

open GitCommitsPush.Lib.Effect
open GitCommitsPush.Lib.JsText
open GitCommitsPush.Lib.Trace (lifted note)

/-! ## What Git has of a repository's history -/

structure HistoryView (σ : Type) where
  head : σ → String
  /-- The commits created in the repository, in order. -/
  created : σ → List String
  /-- The destination ref, at the remote. -/
  dest : σ → Option String
  /-- The history of the first commit has the second. -/
  reaches : String → String → Prop
  /-- What a commit changes, as Git prints it. -/
  patch : String → String
  /-- The content of a commit: what each path has. -/
  tree : String → String → Option String
  /-- The commit changes the path. -/
  changes : String → String → Prop
  index : σ → String → Option String
  stagedDiff : σ → String
  /-- What a path has in the working tree, now or later in the publication. -/
  worktree : σ → String → Option String → Prop
  /-- Nobody else moves HEAD or the index before the publication ends. -/
  alone : σ → Prop

namespace HistoryView

variable {σ : Type} (view : HistoryView σ)

/-- No commit was created. -/
structure Still (w w' : σ) : Prop where
  head : view.head w' = view.head w
  created : view.created w' = view.created w

/-- Nothing moved. -/
structure Same (w w' : σ) : Prop extends Still view w w' where
  dest : view.dest w' = view.dest w

/-- Others write in the working tree at most. -/
structure Undisturbed (w w' : σ) : Prop where
  alone : view.alone w'
  worktree : ∀ p content, view.worktree w' p content → view.worktree w p content

/-- What HEAD has that `head` had not was created since. -/
def Grown (head : String) (created : List String) (w : σ) : Prop :=
  ∃ new, view.created w = created ++ new ∧ ∀ c, view.reaches (view.head w) c → view.reaches head c ∨ c ∈ new

variable {view} {w w' : σ} {head : String} {created : List String}

theorem Grown.still (h : view.Grown head created w) (hstill : view.Still w w') : view.Grown head created w' := by
  unfold Grown
  rw [hstill.head, hstill.created]
  exact h

theorem Same.trans {w'' : σ} (h : view.Same w w') (h' : view.Same w' w'') : view.Same w w'' :=
  ⟨⟨h'.head.trans h.head, h'.created.trans h.created⟩, h'.dest.trans h.dest⟩

theorem Undisturbed.trans {w'' : σ} (h : view.Undisturbed w w') (h' : view.Undisturbed w' w'') : view.Undisturbed w w'' :=
  ⟨h'.alone, fun p content hcontent => h.worktree p content (h'.worktree p content hcontent)⟩

theorem grown_start (w : σ) : view.Grown (view.head w) (view.created w) w := ⟨[], by simp, fun c hc => .inl hc⟩

end HistoryView

/-- Git in the repository. A commit adds one commit to HEAD's history; a push of HEAD's id
    moves the destination there or leaves it, and so do no other commands. -/
structure HasHistory {σ : Type} (host : Host σ) (view : HistoryView σ) (repository : String) : Prop where
  shell : ∀ cwd command w, PhaseCommand command → view.Same w ((host.execSync cwd command).run w).2
  git : ∀ cwd args processConfig w, args.headD "" ≠ "commit" → args.headD "" ≠ "push" →
    view.Same w ((host.execFileGit cwd args processConfig).run w).2
  commit : ∀ cwd args processConfig w, args.headD "" = "commit" →
    let w' := ((host.execFileGit cwd args processConfig).run w).2
    view.dest w' = view.dest w ∧ (view.Still w w' ∨ (view.created w' = view.created w ++ [view.head w'] ∧
      ∀ c, view.reaches (view.head w') c → c = view.head w' ∨ view.reaches (view.head w) c))
  push : ∀ cwd args processConfig w, args.headD "" = "push" → view.Still w ((host.execFileGit cwd args processConfig).run w).2
  pushHead : ∀ cwd lease remote ref processConfig w,
    let w' := ((host.execFileGit cwd ["push", lease, "--", remote, view.head w ++ ":" ++ ref] processConfig).run w).2
    view.dest w' = view.dest w ∨ view.dest w' = some (view.head w)
  readHead : ∀ w out w', (host.execFileGit repository ["rev-parse", "HEAD"] []).run w = (.ok out, w') →
    trimString out = view.head w
  writeMessage : ∀ i message w, view.Same w ((host.writeMessage i message).run w).2
  pathExists : ∀ cwd file w, view.Same w ((host.pathExists cwd file).run w).2
  randomUUID : ∀ w, view.Same w (host.randomUUID.run w).2
  runTestCascade : ∀ repository w, view.Same w ((host.runTestCascade repository).run w).2

/-- Git on the content, undisturbed. `named` are the lists of files that name a path, or a
    directory above it. What a commit changes is what is staged and differs from HEAD. -/
structure HasContent {σ : Type} (host : Host σ) (view : HistoryView σ) (repository : String)
    (named : List String → String → Bool) : Prop where
  diff : ∀ w out w', (host.execSync repository "git diff --cached").run w = (.ok out, w') → out = view.stagedDiff w
  read : ∀ command w, command = "git diff --cached" ∨ command = "git rev-parse HEAD" → view.alone w →
    let w' := ((host.execSync repository command).run w).2
    view.Undisturbed w w' ∧ view.index w' = view.index w
  reset : ∀ w, view.alone w → let r := (host.execSync repository "git reset HEAD").run w
    view.Undisturbed w r.2 ∧ (∀ p, view.index r.2 p = view.index w p ∨ view.index r.2 p = view.tree (view.head w) p) ∧
      (r.1.isOk = true → view.index r.2 = view.tree (view.head w))
  add : ∀ files w, view.alone w →
    let w' := ((host.execFileGit repository (["--literal-pathspecs", "add", "--"] ++ files) []).run w).2
    view.Undisturbed w w' ∧ ∀ p, view.index w' p = view.index w p ∨ (named files p = true ∧ view.worktree w p (view.index w' p))
  writeMessage : ∀ i message w, view.alone w → let w' := ((host.writeMessage i message).run w).2
    view.Undisturbed w w' ∧ view.index w' = view.index w
  commit : ∀ message w, view.alone w →
    let w' := ((host.execFileGit repository ["commit", "--file", message, "--no-verify"] []).run w).2
    view.Undisturbed w w' ∧ view.index w' = view.index w ∧ (view.created w' ≠ view.created w →
      view.tree (view.head w') = view.index w ∧ ∀ p, view.changes (view.head w') p ↔ view.index w p ≠ view.tree (view.head w) p)

section Content

variable {σ : Type} {host : Host σ} {view : HistoryView σ} {repository : String} {named : List String → String → Bool}
  {plans : List CommitPlan} {w₀ w w' : σ}

/-! ## Commits made of what is staged -/

/-- The path has that content only in the working tree. -/
def HistoryView.Fixed (view : HistoryView σ) (w : σ) (p : String) (content : Option String) : Prop :=
  ∀ other, view.worktree w p other → other = content

/-- Nobody else touches HEAD or the index, and a planned path keeps what is staged of it, or
    what HEAD has. -/
structure Steady (view : HistoryView σ) (named : List String → String → Bool) (plans : List CommitPlan) (w : σ) : Prop where
  alone : view.alone w
  planned : ∀ p, Planned named plans p → view.Fixed w p (view.index w p) ∨ view.Fixed w p (view.tree (view.head w) p)

/-- The commit gives what it changes the content staged in `w`. -/
def StagedIn (view : HistoryView σ) (w : σ) (c : String) : Prop := ∀ p, view.changes c p → view.tree c p = view.index w p

/-- All that was created since `w₀` was staged there. -/
def Made (view : HistoryView σ) (w₀ w : σ) : Prop :=
  ∃ new, view.created w = view.created w₀ ++ new ∧ ∀ c ∈ new, StagedIn view w₀ c

/-- In the loop that `w₀` began: the path is staged as HEAD has it, or as `w₀` had it. -/
structure Rebuilt (view : HistoryView σ) (named : List String → String → Bool) (plans : List CommitPlan) (w₀ w : σ) : Prop where
  alone : view.alone w
  worktree : ∀ p content, view.worktree w p content → view.worktree w₀ p content
  content : ∀ p, (view.Fixed w₀ p (view.index w₀ p) ∧
      (view.index w p = view.tree (view.head w) p ∨ view.index w p = view.index w₀ p)) ∨
    ((Planned named plans p → view.Fixed w₀ p (view.tree (view.head w₀) p)) ∧
      view.index w p = view.tree (view.head w₀) p ∧ view.tree (view.head w) p = view.tree (view.head w₀) p)
  made : Made view w₀ w

theorem Made.start (w : σ) : Made view w w := ⟨[], (List.append_nil _).symm, fun c hc => by cases hc⟩

theorem Made.same (h : Made view w₀ w) (hcreated : view.created w' = view.created w) : Made view w₀ w' := by
  unfold Made
  rw [hcreated]
  exact h

/-- A subprocess that creates no commit and stages HEAD's content at most. -/
theorem Rebuilt.still (h : Rebuilt view named plans w₀ w) (hsame : view.Still w w') (hquiet : view.Undisturbed w w')
    (hindex : ∀ p, view.index w' p = view.index w p ∨ view.index w' p = view.tree (view.head w) p) :
    Rebuilt view named plans w₀ w' where
  alone := hquiet.alone
  worktree := fun p content hcontent => h.worktree p content (hquiet.worktree p content hcontent)
  content := by
    intro p
    rw [hsame.head]
    rcases h.content p with ⟨hfixed, hstaged⟩ | ⟨hplanned, hstaged, hhead⟩
    · rcases hindex p with hkept | hreset
      · exact .inl ⟨hfixed, by rwa [hkept]⟩
      · exact .inl ⟨hfixed, .inl hreset⟩
    · rcases hindex p with hkept | hreset
      · exact .inr ⟨hplanned, hkept.trans hstaged, hhead⟩
      · exact .inr ⟨hplanned, hreset.trans hhead, hhead⟩
  made := h.made.same hsame.created

/-- What `git add` takes from the working tree was staged before, or is in HEAD. -/
theorem Rebuilt.add (h : Rebuilt view named plans w₀ w) {plan : CommitPlan} (hplan : plan ∈ plans) (hsame : view.Still w w')
    (hquiet : view.Undisturbed w w')
    (hindex : ∀ p, view.index w' p = view.index w p ∨ (named plan.files p = true ∧ view.worktree w p (view.index w' p))) :
    Rebuilt view named plans w₀ w' where
  alone := hquiet.alone
  worktree := fun p content hcontent => h.worktree p content (hquiet.worktree p content hcontent)
  content := by
    intro p
    rw [hsame.head]
    rcases hindex p with hkept | ⟨hnamed, htaken⟩
    · rw [hkept]
      exact h.content p
    have hpresent := h.worktree p _ htaken
    rcases h.content p with ⟨hfixed, -⟩ | ⟨hplanned, -, hhead⟩
    · exact .inl ⟨hfixed, .inr (hfixed _ hpresent)⟩
    · exact .inr ⟨hplanned, hplanned ⟨plan, hplan, hnamed⟩ _ hpresent, hhead⟩
  made := h.made.same hsame.created

/-- The new commit has the index. What differs there from HEAD was staged in `w₀`. -/
theorem Rebuilt.commit (h : Rebuilt view named plans w₀ w) (hquiet : view.Undisturbed w w') (hindex : view.index w' = view.index w)
    (hcreated : view.created w' = view.created w ++ [view.head w']) (htree : view.tree (view.head w') = view.index w)
    (hchanges : ∀ p, view.changes (view.head w') p ↔ view.index w p ≠ view.tree (view.head w) p) :
    Rebuilt view named plans w₀ w' where
  alone := hquiet.alone
  worktree := fun p content hcontent => h.worktree p content (hquiet.worktree p content hcontent)
  content := by
    intro p
    rw [htree, hindex]
    rcases h.content p with ⟨hfixed, -⟩ | ⟨hplanned, hstaged, -⟩
    · exact .inl ⟨hfixed, .inl rfl⟩
    · exact .inr ⟨hplanned, hstaged, hstaged⟩
  made := by
    obtain ⟨new, hnew, hstagedIn⟩ := h.made
    refine ⟨new ++ [view.head w'], by rw [hcreated, hnew, List.append_assoc], fun c hc => ?_⟩
    rcases List.mem_append.mp hc with hc | hc
    · exact hstagedIn c hc
    cases List.mem_singleton.mp hc
    intro p hp
    have hdiffers := (hchanges p).mp hp
    rw [htree]
    rcases h.content p with ⟨-, hsame | hstaged⟩ | ⟨-, hstaged, hhead⟩
    · exact absurd hsame hdiffers
    · exact hstaged
    · exact absurd (hstaged.trans hhead.symm) hdiffers

/-! ## The commit loop -/

/-- Nothing but a commit creates one. -/
theorem HasHistory.created_kept (h : HasHistory host view repository) (created : List String) :
    KeptBy host (fun w => view.created w = created) fun _ => False where
  shell := fun cwd command hcommand w hw => (h.shell cwd command w hcommand).created.trans hw
  git := by
    intro cwd args processConfig hcommit w hw
    by_cases hpush : args.headD "" = "push"
    · exact (h.push cwd args processConfig w hpush).created.trans hw
    · exact (h.git cwd args processConfig w hcommit hpush).created.trans hw
  writeMessage := fun i message w hw => (h.writeMessage i message w).created.trans hw
  pathExists := fun cwd file w hw => (h.pathExists cwd file w).created.trans hw
  randomUUID := fun w hw => (h.randomUUID w).created.trans hw
  runTestCascade := fun repository w hw => (h.runTestCascade repository w).created.trans hw

/-- What creates no commit leaves all that was made as it was. -/
theorem Made.keeps {ε α : Type} {x : Action σ ε α} (hx : ∀ created, Action.Keeps (fun w => view.created w = created) x) :
    Action.Keeps (Made view w₀) x :=
  fun w hw => hw.same (hx _ w rfl)

section Loop

variable (hhistory : HasHistory host view repository) (hcontent : HasContent host view repository named)

include hhistory hcontent

/-- The index is reset, or is not. -/
theorem reset_rebuilt : Action.Keeps (Rebuilt view named plans w₀) (host.gitExec "reset HEAD" repository) := by
  refine Action.Keeps.bind (fun w hw => ?_) fun _ => Action.Keeps.pure _
  obtain ⟨hquiet, hindex, -⟩ := hcontent.reset w hw.alone
  exact hw.still (hhistory.shell repository _ w (.inr ⟨[], .nameless (by decide)⟩)).toStill hquiet hindex

/-- A plan stages what was staged in `w₀`, and commits it. -/
theorem commitPlan_rebuilt {plan : CommitPlan} (hplan : plan ∈ plans) (i : Nat) :
    Action.Keeps (Below (Rebuilt view named plans w₀)) (commitPlan host repository i plan) := by
  unfold commitPlan
  refine Action.Keeps.bind (lifted_keeps (Action.Keeps.bind (fun w hw => ?_) fun _ => Action.Keeps.pure _)) fun _ => ?_
  · obtain ⟨hquiet, hindex⟩ := hcontent.add plan.files w hw.alone
    exact hw.add hplan (hhistory.git _ _ _ w (by simp) (by simp)).toStill hquiet hindex
  refine Action.Keeps.bind (lifted_keeps fun w hw => ?_) fun message => ?_
  · obtain ⟨hquiet, hindex⟩ := hcontent.writeMessage i (formatConventionalCommit plan.commit) w hw.alone
    exact hw.still (hhistory.writeMessage _ _ w).toStill hquiet fun p => .inl (congrFun hindex p)
  refine Action.Keeps.bind (lifted_keeps (Action.Keeps.bind (fun w hw => ?_) fun _ => Action.Keeps.pure _)) fun _ => ?_
  · obtain ⟨hquiet, hindex, hmade⟩ := hcontent.commit message w hw.alone
    obtain ⟨-, hstill | ⟨hcreated, -⟩⟩ := hhistory.commit repository ["commit", "--file", message, "--no-verify"] [] w (by simp)
    · exact hw.still hstill hquiet fun p => .inl (congrFun hindex p)
    · obtain ⟨htree, hchanges⟩ := hmade (by rw [hcreated]; simp)
      exact hw.commit hquiet hindex hcreated htree hchanges
  refine Action.Keeps.bind (lifted_keeps fun w hw => ?_) fun stdout => ?_
  · obtain ⟨hquiet, hindex⟩ := hcontent.read "git rev-parse HEAD" w (.inr rfl) hw.alone
    exact hw.still (hhistory.shell repository _ w (.inl rfl)).toStill hquiet fun p => .inl (congrFun hindex p)
  exact Action.Keeps.bind (note_keeps _) fun _ => Action.Keeps.pure _

theorem commitPlans_made (originalHead : String) (rest : List CommitPlan) (hrest : rest ⊆ plans) (i : Nat)
    (landed : List CommittedSha) :
    Action.Triple (Below (Rebuilt view named plans w₀)) (commitPlans host repository plans originalHead i landed rest)
      fun _ w => Made view w₀ w.world := by
  induction rest generalizing i landed with
  | nil => exact Action.Triple.pure fun w hw => hw.made
  | cons plan rest ih =>
    obtain ⟨hplan, hrest⟩ := List.cons_subset.mp hrest
    unfold commitPlans
    refine Action.Triple.bind_outcome (commitPlan_rebuilt hhistory hcontent hplan i) fun committed => ?_
    cases committed with
    | ok committed =>
      exact Action.Triple.bind_outcome (lifted_keeps (reset_rebuilt hhistory hcontent)) fun _ => ih hrest _ _
    | error commitErr =>
      refine (Action.Triple.bind_outcome (P := Below (Made view w₀)) (Q := fun _ => Below (Made view w₀)) ?_ fun failure => ?_).conseq
        (fun w hw => hw.made) fun _ _ hw => hw
      · exact lifted_keeps (Made.keeps fun created => (hhistory.created_kept created).commitFailure _ _ _ _ _ _ _)
      cases failure with
      | ok error => exact Action.Triple.throw fun _ hw => hw
      | error error => exact Action.Triple.throw fun _ hw => hw

/-! ## A publication -/

/-- The guard passes on the expected diff only. -/
theorem guardDiffHash_staged {expectedDiffHash : String} (hexpected : expectedDiffHash ≠ EMPTY_DIFF_HASH) (halone : view.alone w₀) :
    Action.Triple (fun w => w.world = w₀) (guardDiffHash host repository expectedDiffHash) fun r w =>
      view.Same w₀ w.world ∧ (r.isOk = true → view.Undisturbed w₀ w.world ∧ view.index w.world = view.index w₀ ∧
        host.sha256 (view.stagedDiff w₀) = expectedDiffHash) := by
  intro w hw
  subst hw
  have hsame := hhistory.shell repository "git diff --cached" w.world (.inr ⟨[], .nameless (by decide)⟩)
  obtain ⟨hquiet, hindex⟩ := hcontent.read "git diff --cached" w.world (.inl rfl) halone
  unfold guardDiffHash
  rw [if_neg hexpected, Action.run_bind, unwrapped_run]
  cases hdiff : (host.execSync repository "git diff --cached").run w.world with
  | mk r w₁ =>
    rw [hdiff] at hsame hquiet hindex
    cases r with
    | error error => exact ⟨hsame, fun h => by cases h⟩
    | ok currentDiff =>
      dsimp only
      split
      · exact ⟨hsame, fun h => by cases h⟩
      · rename_i hhash
        refine ⟨hsame, fun _ => ⟨hquiet, hindex, ?_⟩⟩
        rw [← hcontent.diff _ _ _ hdiff]
        exact Decidable.not_not.mp hhash

/-- The loop begins with HEAD's content staged. -/
theorem reset_starts (hsteady : Steady view named plans w₀) :
    Action.Triple (fun w => view.Same w₀ w ∧ view.Undisturbed w₀ w) (host.gitExec "reset HEAD" repository) fun r w =>
      view.Same w₀ w ∧ (r.isOk = true → Rebuilt view named plans w₀ w) := by
  have hreset : Action.Triple (fun w => view.Same w₀ w ∧ view.Undisturbed w₀ w) (host.execSync repository "git reset HEAD")
      fun r w => view.Same w₀ w ∧ (r.isOk = true → Rebuilt view named plans w₀ w) := by
    intro w hw
    obtain ⟨hquiet, -, hindex⟩ := hcontent.reset w hw.2.alone
    have hsame := hw.1.trans (hhistory.shell repository "git reset HEAD" w (.inr ⟨[], .nameless (by decide)⟩))
    refine ⟨hsame, fun hok => ⟨hquiet.alone, (hw.2.trans hquiet).worktree, fun p => ?_, (Made.start w₀).same hsame.created⟩⟩
    have hhead : view.index ((host.execSync repository "git reset HEAD").run w).2 p = view.tree (view.head w₀) p := by
      rw [hindex hok, hw.1.head]
    rw [hsame.head]
    by_cases hplanned : Planned named plans p
    · rcases hsteady.planned p hplanned with hstaged | hcommitted
      · exact .inl ⟨hstaged, .inl hhead⟩
      · exact .inr ⟨fun _ => hcommitted, hhead, rfl⟩
    · exact .inr ⟨fun h => absurd h hplanned, hhead, rfl⟩
  refine Action.Triple.bind hreset (fun stdout => ?_) fun e w hw => ⟨hw.1, fun h => by cases h⟩
  exact Action.Triple.pure fun w hw => ⟨hw.1, fun _ => hw.2 rfl⟩

/-- All that was created since `w₀` was staged there, and the staged diff has the hash. -/
structure Compared (host : Host σ) (view : HistoryView σ) (expectedDiffHash : String) (w₀ w : σ) : Prop where
  made : Made view w₀ w
  hash : view.created w ≠ view.created w₀ → host.sha256 (view.stagedDiff w₀) = expectedDiffHash

omit hhistory hcontent in
theorem Compared.same {expectedDiffHash : String} (h : Compared host view expectedDiffHash w₀ w)
    (hcreated : view.created w' = view.created w) : Compared host view expectedDiffHash w₀ w' :=
  ⟨h.made.same hcreated, fun hmoved => h.hash (hcreated ▸ hmoved)⟩

omit hhistory hcontent in
theorem Compared.unmade {expectedDiffHash : String} (hcreated : view.created w = view.created w₀) :
    Compared host view expectedDiffHash w₀ w :=
  ⟨(Made.start w₀).same hcreated, fun hmoved => absurd hcreated hmoved⟩

/-- The commits of a publication have the content whose diff was compared. -/
theorem executeMultiCommitAndPush_staged {expectedDiffHash : String} (hexpected : expectedDiffHash ≠ EMPTY_DIFF_HASH)
    (hsteady : Steady view named plans w₀) (settings : Settings) :
    Action.Triple (fun w => w.world = w₀) (executeMultiCommitAndPush host repository plans expectedDiffHash settings)
      fun _ w => Compared host view expectedDiffHash w₀ w.world := by
  unfold executeMultiCommitAndPush
  refine Action.Triple.bind (Q := fun _ w => w.world = w₀) (fun w hw => hw) (fun _ => ?_) fun _ w hw => hw ▸ .unmade rfl
  apply Action.Triple.ite
  · exact fun _ => Action.Triple.throw fun w hw => hw ▸ .unmade rfl
  intro _
  cases firstDuplicate [] (plans.flatMap (·.files)) with
  | some file => exact Action.Triple.throw fun w hw => hw ▸ .unmade rfl
  | none =>
    refine Action.Triple.bind (guardDiffHash_staged hhistory hcontent hexpected hsteady.alone) (fun _ => ?_)
      fun _ w hw => .unmade hw.1.created
    -- the diff was compared
    refine (Action.Triple.given (P := fun w => view.Same w₀ w.world ∧ view.Undisturbed w₀ w.world ∧ view.index w.world = view.index w₀)
      (C := host.sha256 (view.stagedDiff w₀) = expectedDiffHash) fun hhash => ?_).conseq
      (fun w hw => ⟨⟨hw.1, (hw.2 rfl).1, (hw.2 rfl).2.1⟩, (hw.2 rfl).2.2⟩) fun _ _ hw => hw
    have hcompared : ∀ {w}, Made view w₀ w → Compared host view expectedDiffHash w₀ w := fun hmade => ⟨hmade, fun _ => hhash⟩
    refine Action.Triple.bind (Q := fun _ w => view.Same w₀ w.world ∧ view.Undisturbed w₀ w.world) ?_ (fun head => ?_)
      fun _ w hw => .unmade hw.1.created
    · refine Action.Triple.attempt (Q := fun _ w => view.Same w₀ w.world ∧ view.Undisturbed w₀ w.world) (fun w hw => ?_)
        (fun _ _ hw => hw) fun _ => Action.Triple.throw fun _ hw => hw
      obtain ⟨hsame, hquiet, -⟩ := hw
      have hread := hhistory.shell repository "git rev-parse HEAD" w.world (.inl rfl)
      obtain ⟨hstill, -⟩ := hcontent.read "git rev-parse HEAD" w.world (.inr rfl) hquiet.alone
      exact ⟨hsame.trans hread, hquiet.trans hstill⟩
    refine Action.Triple.bind (Q := fun r w => view.Same w₀ w.world ∧ (r.isOk = true → Rebuilt view named plans w₀ w.world)) ?_
      (fun _ => ?_) fun _ w hw => .unmade hw.1.created
    · refine Action.Triple.attempt (Q := fun r w => view.Same w₀ w.world ∧ (r.isOk = true → Rebuilt view named plans w₀ w.world))
        (fun w hw => reset_starts hhistory hcontent hsteady w.world hw) (fun _ _ hw => hw) fun _ => ?_
      exact Action.Triple.throw fun _ hw => ⟨hw.1, fun h => by cases h⟩
    refine Action.Triple.bind (Q := fun _ w => Made view w₀ w.world) ?_ (fun shas => ?_) fun _ w hw => hcompared hw
    · exact (commitPlans_made hhistory hcontent (trimString head) plans (List.Subset.refl _) 0 []).conseq
        (fun w hw => hw.2 rfl) fun _ _ hw => hw
    exact (fun w hw => hcompared (hw.same ((hhistory.created_kept _).pushCommits repository settings shas (trimString head) w rfl)))

end Loop

end Content

end GitCommitsPush.Publication
