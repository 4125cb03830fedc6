/-
  GitCommitsPush.Publication.ValidatedContent — what the commits of a publication contain.

  A checkout is HEAD, an index and a working tree; other processes change the working tree
  before any subprocess. The guard compares the index. Then the index is reset and the
  commits take the working tree, so a change between the two is committed and no guard
  sees it (`edit_after_guard`). `commits_validated_iff`: the commits have the content that
  was compared exactly when each plan that a commit comes of finds it in the working tree
  of its `git add` (`worktreeAt`), which the edits alone decide.
-/

import GitCommitsPush.Publication.PublisherTrace
import GitCommitsPush.Publication.ResultKeeps

namespace GitCommitsPush.Publication

open GitCommitsPush.Lib.Effect
open GitCommitsPush.Lib.JsText
open GitCommitsPush.Lib.Trace (lifted run_lifted note)

/-! ## A checkout -/

/-- What each path has; nothing where it has no file. -/
abbrev Tree := String → Option String

structure Snapshot where
  parent : Tree
  tree : Tree

structure Checkout where
  head : Tree
  index : Tree
  worktree : Tree
  /-- The commits since the start, oldest first. -/
  commits : List Snapshot
  /-- The subprocesses since the start. -/
  clock : Nat

/-- How a subprocess ends; it may be reported to fail when its work is done. -/
inductive Fate where
  | works | fails | failsAfter
  deriving DecidableEq

/-- What the code does not decide: the paths there are and what a pathspec names of them, the
    text of a staged diff, what other processes do before each subprocess, how it ends and
    what it prints. -/
structure Surroundings where
  sha256 : String → String
  localeCompare : String → String → Int
  paths : List String
  covers : String → String → Bool
  diffText : Tree → Tree → String
  edit : Nat → Tree → Tree
  fate : Nat → Fate
  output : Nat → String → String

namespace Surroundings

variable (s : Surroundings)

/-- The checkout when the next subprocess starts. -/
def arrive (w : Checkout) : Checkout := { w with worktree := s.edit w.clock w.worktree, clock := w.clock + 1 }

def call {α : Type} (effect : Checkout → Except ExecError α × Checkout) : Action Checkout ExecError α := fun w =>
  match s.fate w.clock with
  | .works => effect (s.arrive w)
  | .fails => (.error (plainError "Command failed"), s.arrive w)
  | .failsAfter => (.error (plainError "Command failed"), (effect (s.arrive w)).2)

def named (files : List String) (path : String) : Bool := files.any (s.covers · path)

/-- The index after `git add` of the files. -/
def staged (files : List String) (w : Checkout) : Tree := fun path => if s.named files path then w.worktree path else w.index path

def shell (command : String) (w : Checkout) : Except ExecError String × Checkout :=
  if command = "git diff --cached" then (.ok (s.diffText w.head w.index), w)
  else if command = "git reset HEAD" then (.ok "", { w with index := w.head })
  else (.ok (s.output w.clock command), w)

/-- A pathspec that names nothing is an error. -/
def add (files : List String) (w : Checkout) : Except ExecError String × Checkout :=
  if files.any fun file => s.paths.all fun path => !s.covers file path || ((w.worktree path).isNone && (w.index path).isNone) then
    (.error (plainError "pathspec did not match any files"), w)
  else (.ok "", { w with index := s.staged files w })

def commit (w : Checkout) : Except ExecError String × Checkout :=
  if s.paths.all fun path => w.index path == w.head path then (.error (plainError "nothing to commit"), w)
  else (.ok "", { w with head := w.index, commits := w.commits ++ [⟨w.head, w.index⟩] })

def git (args : List String) (w : Checkout) : Except ExecError String × Checkout :=
  if args.headD "" = "commit" then s.commit w
  else if args.take 3 = ["--literal-pathspecs", "add", "--"] then s.add (args.drop 3) w
  else (.ok (s.output w.clock (joinStrings " " args)), w)

def host : Host Checkout where
  sha256 := s.sha256
  localeCompare := s.localeCompare
  execSync _ command := s.call (s.shell command)
  execFileGit _ args _ := s.call (s.git args)
  writeMessage i _ := s.call fun w => (.ok ("commit-msg-" ++ toString i ++ ".txt"), w)
  pathExists _ file := s.call fun w => (.ok (s.paths.any fun path => s.covers file path && (w.worktree path).isSome), w)
  randomUUID := s.call fun w => (.ok (s.output w.clock "uuid"), w)
  runTestCascade _ := s.call fun w => (.ok (), w)

end Surroundings

/-! ## Content -/

section Content

variable (s : Surroundings) (validated : Tree)

/-- Every path the commit changes has the validated content. -/
def Snapshot.Validated (c : Snapshot) : Prop := ∀ path, c.tree path ≠ c.parent path → c.tree path = validated path

/-- The working tree in subprocess number `n` of the call. -/
def Surroundings.worktreeAt (w : Checkout) : Nat → Tree
  | 0 => s.edit w.clock w.worktree
  | n + 1 => s.edit (w.clock + (n + 1)) (Surroundings.worktreeAt w n)

/-- The tree that a `git add` of the files in subprocess `n` stages over a clean index. -/
def Surroundings.addedAt (w : Checkout) (n : Nat) (head : Tree) (files : List String) : Tree :=
  fun path => if s.named files path then s.worktreeAt w n path else head path

/-- Every file names a path of the working tree or of the index. -/
def FilesFound (w : Checkout) (n : Nat) (head : Tree) (files : List String) : Prop :=
  ∀ file ∈ files, ∃ path ∈ s.paths, s.covers file path = true ∧ ((s.worktreeAt w n path).isSome = true ∨ (head path).isSome = true)

/-- The plan whose `git add` is subprocess `n` makes a commit: its files are there, the message is
    written, and `git commit` finds a change. -/
structure Commits (w : Checkout) (n : Nat) (head : Tree) (files : List String) : Prop where
  add : s.fate (w.clock + n) = .works
  found : FilesFound s w n head files
  message : s.fate (w.clock + (n + 1)) = .works
  commit : s.fate (w.clock + (n + 2)) ≠ .fails
  change : ∃ path ∈ s.paths, s.addedAt w n head files path ≠ head path

/-- The commit is reported, and its id is read. -/
def Reported (w : Checkout) (n : Nat) : Prop := s.fate (w.clock + (n + 2)) = .works ∧ s.fate (w.clock + (n + 3)) = .works

/-- Every plan that a commit comes of finds what was validated, or what HEAD has, at its `git add`.
    A plan runs in five subprocesses, the next one on the commit it made. -/
def StagesValidated (w : Checkout) : Nat → Tree → List CommitPlan → Prop
  | _, _, [] => True
  | n, head, plan :: rest => Commits s w n head plan.files →
      (∀ path, s.named plan.files path = true → s.worktreeAt w n path = validated path ∨ s.worktreeAt w n path = head path) ∧
        (Reported s w n → StagesValidated w (n + 5) (s.addedAt w n head plan.files) rest)

/-- The guard finds the expected diff, and nothing fails before the loop. -/
def Opens (expectedDiffHash : String) (w : Checkout) : Prop :=
  s.sha256 (s.diffText w.head w.index) = expectedDiffHash ∧ ∀ n < 3, s.fate (w.clock + n) = .works

/-- Only what was compared is committed, and nothing where the staged diff is not the expected one:
    the error says so then, and no commit is made with it. -/
structure OnlyValidated (plans : List CommitPlan) (expectedDiffHash : String) (w : Checkout) (created : List Snapshot)
    (outcome : Except PublishError Published) : Prop where
  content : ∀ c ∈ created, c.Validated w.index
  expected : created ≠ [] → s.sha256 (s.diffText w.head w.index) = expectedDiffHash
  refused : plans ≠ [] → firstDuplicate [] (plans.flatMap (·.files)) = none → s.fate w.clock = .works →
    s.sha256 (s.diffText w.head w.index) ≠ expectedDiffHash → outcome = .error .diffHashMismatch
  unmade : outcome = .error .diffHashMismatch → created = []

/-- The checkout at the loop: the index was reset. -/
def loopStart (w : Checkout) : Checkout := { s.arrive (s.arrive (s.arrive w)) with index := w.head }

end Content

/-! ## Subprocesses -/

section Subprocesses

variable {s : Surroundings} {α ε : Type} {P : Checkout → Prop} {Q : Except ε α → Checkout → Prop}

theorem lifted_triple {x : Action Checkout ε α} (h : Action.Triple P x Q) :
    Action.Triple (fun w : Traced Checkout => P w.world) (lifted x) fun r w => Q r w.world :=
  fun w hw => h w.world hw

theorem call_triple {effect : Checkout → Except ExecError α × Checkout} {Q : Except ExecError α → Checkout → Prop}
    (hfails : ∀ w e, P w → s.fate w.clock = .fails → Q (.error e) (s.arrive w))
    (hafter : ∀ w e, P w → s.fate w.clock = .failsAfter → Q (.error e) (effect (s.arrive w)).2)
    (heffect : ∀ w, P w → s.fate w.clock = .works → Q (effect (s.arrive w)).1 (effect (s.arrive w)).2) :
    Action.Triple P (s.call effect) Q := by
  intro w hw
  unfold Action.run Surroundings.call
  cases hfate : s.fate w.clock with
  | works => exact heffect w hw hfate
  | fails => exact hfails w _ hw hfate
  | failsAfter => exact hafter w _ hw hfate

theorem call_keeps {I : Checkout → Prop} {effect : Checkout → Except ExecError α × Checkout} (harrive : ∀ w, I w → I (s.arrive w))
    (heffect : ∀ w, I w → I (effect w).2) : Action.Keeps I (s.call effect) :=
  call_triple (fun w _ hw _ => harrive w hw) (fun w _ hw _ => heffect _ (harrive w hw)) fun w hw _ => heffect _ (harrive w hw)

/-- Git with arguments, its output trimmed. -/
theorem gitExecArgs_triple {args : List String} {cwd : String} {Q : Prop → Checkout → Prop}
    (h : Action.Triple P (s.call (s.git args)) fun r w => Q (r.isOk = true) w) :
    Action.Triple P (s.host.gitExecArgs args cwd) fun r w => Q (r.isOk = true) w := by
  refine Action.Triple.bind h (fun stdout => ?_) fun e w hw => hw
  exact Action.Triple.pure fun w hw => hw

/-- No subprocess but `git commit` makes a commit. -/
theorem commits_kept (commits : List Snapshot) : KeptBy s.host (fun w => w.commits = commits) fun _ => False where
  shell := by
    intro cwd command _
    refine call_keeps (fun w hw => hw) fun w hw => ?_
    unfold Surroundings.shell
    split
    · exact hw
    split
    · exact hw
    · exact hw
  git := by
    intro cwd args processConfig hargs
    refine call_keeps (fun w hw => hw) fun w hw => ?_
    unfold Surroundings.git
    rw [if_neg hargs]
    split
    · unfold Surroundings.add
      split
      · exact hw
      · exact hw
    · exact hw
  writeMessage := fun _ _ => call_keeps (fun _ hw => hw) fun _ hw => hw
  pathExists := fun _ _ => call_keeps (fun _ hw => hw) fun _ hw => hw
  randomUUID := call_keeps (fun _ hw => hw) fun _ hw => hw
  runTestCascade := fun _ => call_keeps (fun _ hw => hw) fun _ hw => hw

/-! ## A plan -/

/-- The subprocess before number `n` has ended, over this HEAD and this index. -/
structure Reached (s : Surroundings) (w : Checkout) (n : Nat) (head index : Tree) (c : Checkout) : Prop where
  clock : c.clock = w.clock + n
  worktree : (s.arrive c).worktree = s.worktreeAt w n
  head : c.head = head
  index : c.index = index

variable {w c : Checkout} {n : Nat} {head index : Tree} {commits : List Snapshot} {files : List String}

/-- A subprocess that leaves HEAD and the index. -/
theorem Reached.arrive (h : Reached s w n head index c) : Reached s w (n + 1) head index (s.arrive c) where
  clock := by
    show c.clock + 1 = w.clock + (n + 1)
    rw [h.clock, Nat.add_assoc]
  worktree := by
    show s.edit (c.clock + 1) (s.arrive c).worktree = s.edit (w.clock + (n + 1)) (s.worktreeAt w n)
    rw [h.worktree, h.clock, Nat.add_assoc]
  head := h.head
  index := h.index

theorem Reached.fate (h : Reached s w n head index c) : s.fate (w.clock + n) = s.fate c.clock := by rw [h.clock]

/-- How a plan ends: without a commit; with one that is not reported; or with one that the next plan starts from. -/
def PlanEnds (s : Surroundings) (w : Checkout) (n : Nat) (head : Tree) (files : List String) (commits : List Snapshot) (ok : Prop) (c : Checkout) :
    Prop :=
  (¬ Commits s w n head files ∧ ¬ ok ∧ c.commits = commits) ∨
    (Commits s w n head files ∧ ¬ Reported s w n ∧ ¬ ok ∧ c.commits = commits ++ [⟨head, s.addedAt w n head files⟩]) ∨
    (Commits s w n head files ∧ Reported s w n ∧ ok ∧ c.commits = commits ++ [⟨head, s.addedAt w n head files⟩] ∧
      Reached s w (n + 4) (s.addedAt w n head files) (s.addedAt w n head files) c)

/-- The plan's files are staged over the clean index. -/
theorem add_ends (cwd : String) : Action.Triple (fun c => Reached s w n head head c ∧ c.commits = commits)
    (s.host.gitExecArgs (["--literal-pathspecs", "add", "--"] ++ files) cwd) fun r c => c.commits = commits ∧
      (r.isOk = true → Reached s w (n + 1) head (s.addedAt w n head files) c ∧ s.fate (w.clock + n) = .works ∧ FilesFound s w n head files) ∧
      (¬ r.isOk = true → ¬ Commits s w n head files) := by
  have heffect : ∀ c, s.git (["--literal-pathspecs", "add", "--"] ++ files) c = s.add files c := by
    intro c
    unfold Surroundings.git
    rw [if_neg (by simp), if_pos (by simp)]
    rfl
  have hkept : ∀ c, (s.add files c).2.commits = c.commits := by
    intro c
    unfold Surroundings.add
    split <;> rfl
  have hunmade : ∀ {c : Checkout}, Reached s w n head head c → s.fate c.clock ≠ .works → ¬ Commits s w n head files :=
    fun hc hfate hcommits => hfate (hc.fate ▸ hcommits.add)
  refine gitExecArgs_triple (Q := fun ok c => c.commits = commits ∧
    (ok → Reached s w (n + 1) head (s.addedAt w n head files) c ∧ s.fate (w.clock + n) = .works ∧ FilesFound s w n head files) ∧
    (¬ ok → ¬ Commits s w n head files)) (call_triple ?_ ?_ ?_)
  · intro c e hc hfate
    exact ⟨hc.2, fun hok => absurd hok Bool.false_ne_true, fun _ => hunmade hc.1 (by simp [hfate])⟩
  · intro c e hc hfate
    rw [heffect]
    exact ⟨(hkept _).trans hc.2, fun hok => absurd hok Bool.false_ne_true, fun _ => hunmade hc.1 (by simp [hfate])⟩
  · intro c hc hfate
    have hindex : ∀ path, (s.arrive c).index path = head path := congrFun hc.1.index
    rw [heffect]
    refine ⟨(hkept _).trans hc.2, fun hok => ?_, fun hfailed hcommits => hfailed ?_⟩
    · unfold Surroundings.add at hok ⊢
      split
      · rename_i hnothing
        rw [if_pos hnothing] at hok
        cases hok
      · rename_i hfound
        have hstaged : s.staged files (s.arrive c) = s.addedAt w n head files := by
          funext path
          unfold Surroundings.staged Surroundings.addedAt
          rw [hc.1.worktree, hindex]
        refine ⟨⟨hc.1.arrive.clock, hc.1.arrive.worktree, hc.1.head, hstaged⟩, hc.1.fate.trans hfate, fun file hfile => ?_⟩
        refine Classical.byContradiction fun hnone => hfound (List.any_eq_true.mpr ⟨file, hfile, List.all_eq_true.mpr fun path hpath => ?_⟩)
        rw [hc.1.worktree, hindex]
        cases hcovers : s.covers file path with
        | false => rfl
        | true =>
          have habsent := fun hthere => hnone ⟨path, hpath, hcovers, hthere⟩
          simpa [not_or, Option.isNone_iff_eq_none] using habsent
    · unfold Surroundings.add
      rw [if_neg]
      · rfl
      intro hnothing
      obtain ⟨file, hfile, hnone⟩ := List.any_eq_true.mp hnothing
      obtain ⟨path, hpath, hcovers, hthere⟩ := hcommits.found file hfile
      have hpathNone := List.all_eq_true.mp hnone path hpath
      rw [hc.1.worktree, hindex, hcovers] at hpathNone
      simp only [Bool.not_true, Bool.false_or, Bool.and_eq_true, Option.isNone_iff_eq_none] at hpathNone
      rw [hpathNone.1, hpathNone.2] at hthere
      simp at hthere

/-- A subprocess that leaves HEAD, the index and the commits. -/
theorem still_ends {effect : Checkout → Except ExecError α × Checkout} (heffect : ∀ c, (effect c).1.isOk = true ∧ (effect c).2 = c) :
    Action.Triple (fun c => Reached s w n head index c ∧ c.commits = commits) (s.call effect) fun r c => c.commits = commits ∧
      (r.isOk = true → Reached s w (n + 1) head index c ∧ s.fate (w.clock + n) = .works) ∧
      (¬ r.isOk = true → s.fate (w.clock + n) ≠ .works) := by
  refine call_triple ?_ ?_ ?_
  · intro c e hc hfate
    exact ⟨hc.2, fun hok => absurd hok Bool.false_ne_true, fun _ => by simp [hc.1.fate, hfate]⟩
  · intro c e hc hfate
    rw [(heffect _).2]
    exact ⟨hc.2, fun hok => absurd hok Bool.false_ne_true, fun _ => by simp [hc.1.fate, hfate]⟩
  · intro c hc hfate
    rw [(heffect _).2]
    exact ⟨hc.2, fun _ => ⟨hc.1.arrive, hc.1.fate.trans hfate⟩, fun hfailed => absurd (heffect _).1 hfailed⟩

/-- What `git commit` makes of the index, reported or not. -/
theorem commit_ends (path cwd : String) : Action.Triple (fun c => Reached s w n head index c ∧ c.commits = commits)
    (s.host.gitExecArgs ["commit", "--file", path, "--no-verify"] cwd) fun r c =>
      ((s.fate (w.clock + n) = .fails ∨ ¬ ∃ path ∈ s.paths, index path ≠ head path) ∧ ¬ r.isOk = true ∧ c.commits = commits) ∨
        ((s.fate (w.clock + n) ≠ .fails ∧ ∃ path ∈ s.paths, index path ≠ head path) ∧ c.commits = commits ++ [⟨head, index⟩] ∧
          (r.isOk = true → s.fate (w.clock + n) = .works ∧ Reached s w (n + 1) index index c) ∧
          (¬ r.isOk = true → s.fate (w.clock + n) ≠ .works)) := by
  have hmade : ∀ c, Reached s w n head index c → c.commits = commits →
      ((∃ path ∈ s.paths, index path ≠ head path) ∧ (s.commit (s.arrive c)).1.isOk = true ∧
          (s.commit (s.arrive c)).2.commits = commits ++ [⟨head, index⟩] ∧ Reached s w (n + 1) index index (s.commit (s.arrive c)).2) ∨
        ((¬ ∃ path ∈ s.paths, index path ≠ head path) ∧ (s.commit (s.arrive c)).1.isOk = false ∧
          (s.commit (s.arrive c)).2.commits = commits) := by
    intro c hc hkept
    have hkept : (s.arrive c).commits = commits := hkept
    unfold Surroundings.commit
    rw [hc.arrive.head, hc.arrive.index, hkept]
    split
    · rename_i hsame
      refine .inr ⟨fun hchange => ?_, rfl, hkept⟩
      obtain ⟨path, hpath, hne⟩ := hchange
      exact hne (beq_iff_eq.mp (List.all_eq_true.mp hsame path hpath))
    · rename_i hchanged
      refine .inl ⟨?_, rfl, rfl, ⟨hc.arrive.clock, hc.arrive.worktree, rfl, rfl⟩⟩
      refine Classical.byContradiction fun hnone => hchanged (List.all_eq_true.mpr fun path hpath => beq_iff_eq.mpr ?_)
      exact Classical.byContradiction fun hne => hnone ⟨path, hpath, hne⟩
  refine gitExecArgs_triple (Q := fun ok c =>
    ((s.fate (w.clock + n) = .fails ∨ ¬ ∃ path ∈ s.paths, index path ≠ head path) ∧ ¬ ok ∧ c.commits = commits) ∨
      ((s.fate (w.clock + n) ≠ .fails ∧ ∃ path ∈ s.paths, index path ≠ head path) ∧ c.commits = commits ++ [⟨head, index⟩] ∧
        (ok → s.fate (w.clock + n) = .works ∧ Reached s w (n + 1) index index c) ∧ (¬ ok → s.fate (w.clock + n) ≠ .works)))
    (call_triple ?_ ?_ ?_)
  · intro c e hc hfate
    exact .inl ⟨.inl (hc.1.fate.trans hfate), Bool.false_ne_true, hc.2⟩
  · intro c e hc hfate
    have hfated : s.fate (w.clock + n) = .failsAfter := hc.1.fate.trans hfate
    rcases hmade c hc.1 hc.2 with ⟨hchange, -, hgrown, -⟩ | ⟨hnone, -, hkept⟩
    · exact .inr ⟨⟨by simp [hfated], hchange⟩, hgrown, fun hok => absurd hok Bool.false_ne_true, fun _ => by simp [hfated]⟩
    · exact .inl ⟨.inr hnone, Bool.false_ne_true, hkept⟩
  · intro c hc hfate
    have hfated : s.fate (w.clock + n) = .works := hc.1.fate.trans hfate
    have hcommit : s.git ["commit", "--file", path, "--no-verify"] (s.arrive c) = s.commit (s.arrive c) := rfl
    rw [hcommit]
    rcases hmade c hc.1 hc.2 with ⟨hchange, hok, hgrown, hreached⟩ | ⟨hnone, hfailed, hkept⟩
    · exact .inr ⟨⟨by simp [hfated], hchange⟩, hgrown, fun _ => ⟨hfated, hreached⟩, fun hfailed => absurd hok hfailed⟩
    · refine .inl ⟨.inr hnone, ?_, hkept⟩
      rw [hfailed]
      exact Bool.false_ne_true

theorem commitPlan_effect (repoPath : String) (i : Nat) (plan : CommitPlan) : Action.Triple (fun t : Traced Checkout =>
    Reached s w n head head t.world ∧ t.world.commits = commits) (commitPlan s.host repoPath i plan) fun r t =>
      PlanEnds s w n head plan.files commits (r.isOk = true) t.world := by
  unfold commitPlan
  refine Action.Triple.bind (lifted_triple (add_ends repoPath)) (fun _ => ?_)
    fun e t ht => .inl ⟨ht.2.2 Bool.false_ne_true, Bool.false_ne_true, ht.1⟩
  refine Action.Triple.conseq (P := fun t : Traced Checkout => (Reached s w (n + 1) head (s.addedAt w n head plan.files) t.world ∧
    t.world.commits = commits) ∧ s.fate (w.clock + n) = .works ∧ FilesFound s w n head plan.files) ?_
    (fun t ht => ⟨⟨(ht.2.1 rfl).1, ht.1⟩, (ht.2.1 rfl).2⟩) fun _ _ h => h
  refine Action.Triple.given fun hadded => ?_
  refine Action.Triple.bind (lifted_triple (still_ends fun _ => ⟨rfl, rfl⟩)) (fun path => ?_)
    fun e t ht => .inl ⟨fun hcommits => ht.2.2 Bool.false_ne_true hcommits.message, Bool.false_ne_true, ht.1⟩
  refine Action.Triple.conseq (P := fun t : Traced Checkout => (Reached s w (n + 2) head (s.addedAt w n head plan.files) t.world ∧
    t.world.commits = commits) ∧ s.fate (w.clock + (n + 1)) = .works) ?_ (fun t ht => ⟨⟨(ht.2.1 rfl).1, ht.1⟩, (ht.2.1 rfl).2⟩) fun _ _ h => h
  refine Action.Triple.given fun hmessage => ?_
  refine Action.Triple.bind (lifted_triple (commit_ends path repoPath)) (fun _ => ?_) fun e t ht => ?_
  rotate_left
  · rcases ht with ⟨hnone, hfailed, hkept⟩ | ⟨⟨hfate, hchange⟩, hgrown, -, hunreported⟩
    · exact .inl ⟨fun hcommits => hnone.elim hcommits.commit fun hsame => hsame hcommits.change, Bool.false_ne_true, hkept⟩
    · exact .inr (.inl ⟨⟨hadded.1, hadded.2, hmessage, hfate, hchange⟩, fun hreported => hunreported Bool.false_ne_true hreported.1,
        Bool.false_ne_true, hgrown⟩)
  refine Action.Triple.conseq (P := fun t : Traced Checkout =>
    (Reached s w (n + 3) (s.addedAt w n head plan.files) (s.addedAt w n head plan.files) t.world ∧
      t.world.commits = commits ++ [⟨head, s.addedAt w n head plan.files⟩]) ∧
      Commits s w n head plan.files ∧ s.fate (w.clock + (n + 2)) = .works) ?_ (fun t ht => ?_) fun _ _ h => h
  rotate_left
  · rcases ht with ⟨-, hfailed, -⟩ | ⟨⟨hfate, hchange⟩, hgrown, hreported, -⟩
    · exact absurd rfl hfailed
    · exact ⟨⟨(hreported rfl).2, hgrown⟩, ⟨hadded.1, hadded.2, hmessage, hfate, hchange⟩, (hreported rfl).1⟩
  refine Action.Triple.given fun hcommitted => ?_
  refine Action.Triple.bind (lifted_triple (still_ends fun _ => ⟨rfl, rfl⟩)) (fun stdout => ?_) fun e t ht => ?_
  rotate_left
  · exact .inr (.inl ⟨hcommitted.1, fun hreported => ht.2.2 Bool.false_ne_true hreported.2, Bool.false_ne_true, ht.1⟩)
  refine Action.Triple.bind (Q := fun r t => r.isOk = true ∧ t.world.commits = commits ++ [⟨head, s.addedAt w n head plan.files⟩] ∧
    Reached s w (n + 4) (s.addedAt w n head plan.files) (s.addedAt w n head plan.files) t.world ∧ s.fate (w.clock + (n + 3)) = .works)
    (fun t ht => ⟨rfl, ht.1, ht.2.1 rfl⟩) (fun _ => ?_) fun e t ht => by cases ht.1
  exact Action.Triple.pure fun t ht => .inr (.inr ⟨hcommitted.1, ⟨hcommitted.2, ht.2.2.2⟩, rfl, ht.2.1, ht.2.2.1⟩)

/-- The commit of a plan is validated exactly when the plan finds what was. -/
theorem added_validated_iff {validated : Tree} : Snapshot.Validated validated ⟨head, s.addedAt w n head files⟩ ↔
    ∀ path, s.named files path = true → s.worktreeAt w n path = validated path ∨ s.worktreeAt w n path = head path := by
  constructor
  · intro h path hnamed
    have hpath := h path
    dsimp only [Surroundings.addedAt] at hpath
    rw [if_pos hnamed] at hpath
    by_cases hhead : s.worktreeAt w n path = head path
    · exact .inr hhead
    · exact .inl (hpath hhead)
  · intro h path hchanged
    dsimp only [Surroundings.addedAt] at hchanged ⊢
    by_cases hnamed : s.named files path = true
    · rw [if_pos hnamed] at hchanged ⊢
      exact (h path hnamed).resolve_right hchanged
    · rw [if_neg hnamed] at hchanged
      exact absurd rfl hchanged

/-! ## The loop -/

/-- A reset of a clean index, done or not. -/
theorem reset_clean (repoPath : String) (t : Traced Checkout) (h : Reached s w n head head t.world) :
    let t' := ((lifted (s.host.gitExec "reset HEAD" repoPath)).run t).2
    Reached s w (n + 1) head head t'.world ∧ t'.world.commits = t.world.commits := by
  have hreset : Reached s w (n + 1) head head { s.arrive t.world with index := t.world.head } :=
    ⟨h.arrive.clock, h.arrive.worktree, h.head, h.head⟩
  have hspec : Action.Triple (fun c : Checkout => c = t.world) (s.host.gitExec "reset HEAD" repoPath) fun _ c =>
      Reached s w (n + 1) head head c ∧ c.commits = t.world.commits := by
    refine Action.Triple.bind (call_triple (Q := fun _ c => Reached s w (n + 1) head head c ∧ c.commits = t.world.commits) ?_ ?_ ?_)
      (fun _ => ?_) fun _ _ h => h
    · intro c e hc _
      subst hc
      exact ⟨h.arrive, rfl⟩
    · intro c e hc _
      subst hc
      exact ⟨hreset, rfl⟩
    · intro c hc _
      subst hc
      exact ⟨hreset, rfl⟩
    · exact Action.Triple.pure fun c hc => hc
  exact hspec t.world rfl

theorem commitPlans_validated (repoPath : String) (validated : Tree) (plans : List CommitPlan) (originalHead : String)
    (rest : List CommitPlan) (i : Nat) (landed : List CommittedSha) (t : Traced Checkout) (h : Reached s w n head head t.world) :
    ∃ created, ((commitPlans s.host repoPath plans originalHead i landed rest).run t).2.world.commits = t.world.commits ++ created ∧
      ((∀ c ∈ created, c.Validated validated) ↔ StagesValidated s validated w n head rest) := by
  induction rest generalizing i landed t n head with
  | nil => exact ⟨[], (List.append_nil _).symm, fun _ => True.intro, fun _ c hc => absurd hc List.not_mem_nil⟩
  | cons plan rest ih =>
    have heffect := commitPlan_effect (s := s) repoPath i plan t ⟨h, rfl⟩
    rw [StagesValidated]
    cases hplan : (commitPlan s.host repoPath i plan).run t with
    | mk r t₁ =>
      rw [hplan] at heffect
      have hone : Snapshot.Validated validated ⟨head, s.addedAt w n head plan.files⟩ ↔
          ∀ path, s.named plan.files path = true → s.worktreeAt w n path = validated path ∨ s.worktreeAt w n path = head path :=
        added_validated_iff
      cases r with
      | error commitErr =>
        have hcommits : ((commitPlans s.host repoPath plans originalHead i landed (plan :: rest)).run t).2.world.commits =
            t₁.world.commits := by
          unfold commitPlans
          rw [Action.run_bind, Action.run_outcome, hplan]
          dsimp only
          rw [Action.run_bind, Action.run_outcome]
          have hkept := lifted_keeps ((@commits_kept s t₁.world.commits).commitFailure repoPath plans originalHead i plan landed commitErr)
            t₁ rfl
          cases hfailure : (lifted (commitFailure s.host repoPath plans originalHead i plan landed commitErr)).run t₁ with
          | mk failure t₂ =>
            rw [hfailure] at hkept
            cases failure <;> exact hkept
        rw [hcommits]
        rcases heffect with ⟨hno, -, hsame⟩ | ⟨hyes, hunreported, -, hmade⟩ | ⟨-, -, hok, -⟩
        · exact ⟨[], hsame.trans (List.append_nil _).symm, fun _ hcommitting => absurd hcommitting hno, fun _ c hc => absurd hc List.not_mem_nil⟩
        · refine ⟨_, hmade, ?_⟩
          rw [List.forall_mem_singleton, hone]
          exact ⟨fun hfound _ => ⟨hfound, fun hreported => absurd hreported hunreported⟩, fun hrest => (hrest hyes).1⟩
        · cases hok
      | ok committed =>
        rcases heffect with ⟨-, hfailed, -⟩ | ⟨-, -, hfailed, -⟩ | ⟨hyes, hreported, -, hmade, hreached⟩
        · exact absurd rfl hfailed
        · exact absurd rfl hfailed
        · obtain ⟨hreset, hkept⟩ := reset_clean (s := s) repoPath t₁ hreached
          obtain ⟨created, hcreated, hiff⟩ := ih (i + 1) (landed ++ [committed]) _ hreset
          refine ⟨⟨head, s.addedAt w n head plan.files⟩ :: created, ?_, ?_⟩
          · unfold commitPlans
            rw [Action.run_bind, Action.run_outcome, hplan]
            refine hcreated.trans ?_
            rw [hkept, hmade, List.append_assoc, List.singleton_append]
          · rw [List.forall_mem_cons, hone, hiff]
            exact ⟨fun hall _ => ⟨hall.1, fun _ => hall.2⟩, fun hrest => ⟨(hrest hyes).1, (hrest hyes).2 hreported⟩⟩

/-! ## The publication -/

theorem commitFailure_not_mismatch (repoPath : String) (plans : List CommitPlan) (originalHead : String) (i : Nat) (plan : CommitPlan)
    (landed : List CommittedSha) (commitErr : ExecError) :
    Action.Returns (commitFailure s.host repoPath plans originalHead i plan landed commitErr) (· ≠ .diffHashMismatch) := by
  unfold commitFailure
  refine Action.Returns.bind (Action.Returns.any _) fun _ _ => ?_
  refine Action.Returns.bind (Action.Returns.any _) fun fileState _ => ?_
  apply Action.Returns.ite
  · intro _
    exact Action.Returns.pure (by simp)
  intro _
  apply Action.Returns.ite
  · intro _
    exact Action.Returns.pure (by simp)
  · intro _
    exact Action.Returns.pure (by simp)

theorem commitPlans_not_mismatch (repoPath : String) (plans : List CommitPlan) (originalHead : String) (rest : List CommitPlan) (i : Nat)
    (landed : List CommittedSha) :
    Action.Triple (fun _ => True) (commitPlans s.host repoPath plans originalHead i landed rest) fun r _ =>
      r ≠ .error .diffHashMismatch := by
  induction rest generalizing i landed with
  | nil => exact Action.Triple.pure fun _ _ => by simp
  | cons plan rest ih =>
    unfold commitPlans
    refine Action.Triple.bind_outcome (Q := fun _ _ => True) Action.Triple.trivial fun committed => ?_
    cases committed with
    | ok committed => exact Action.Triple.bind_outcome (Q := fun _ _ => True) Action.Triple.trivial fun _ => ih _ _
    | error commitErr =>
      refine Action.Triple.bind_outcome (Q := fun r _ => ∀ error, r = .ok error → error ≠ .diffHashMismatch) ?_ fun failure => ?_
      · intro w _ error herror
        exact commitFailure_not_mismatch repoPath plans originalHead i plan landed commitErr w.world error herror
      · cases failure with
        | ok error => exact Action.Triple.throw fun _ h hmismatch => h error rfl (Except.error.inj hmismatch)
        | error error => exact Action.Triple.throw fun _ _ => by simp

theorem pushCommits_not_mismatch (repoPath : String) (settings : Settings) (landed : List CommittedSha) (originalHead : String) :
    Action.Triple (fun _ => True) (pushCommits s.host repoPath settings landed originalHead) fun r _ => r ≠ .error .diffHashMismatch := by
  unfold pushCommits
  refine Action.Triple.bind (Q := fun r _ => r ≠ .error .diffHashMismatch) ?_ (fun _ => ?_) fun e _ h => fun he => h (by cases he; rfl)
  · refine Action.Triple.attempt (Q := fun _ _ => True) Action.Triple.trivial (fun _ _ _ => by simp) fun e => ?_
    exact Action.Triple.throw fun _ _ => by simp
  · refine Action.Triple.bind (Q := fun r _ => r = .ok ()) (fun _ _ => rfl) (fun _ => ?_) fun e w h => by cases h
    exact Action.Triple.pure fun _ _ => by simp

/-- A subprocess before the loop that would return `out` and leave `c'`. -/
theorem call_ends {effect : Checkout → Except ExecError α × Checkout} {c c' : Checkout} {out : α}
    (heffect : effect (s.arrive c) = (.ok out, c')) (hcommits : c'.commits = c.commits) :
    (s.fate c.clock = .works ∧ (s.call effect).run c = (.ok out, c')) ∨
      (s.fate c.clock ≠ .works ∧ ∃ e left, (s.call effect).run c = (.error e, left) ∧ left.commits = c.commits) := by
  unfold Action.run Surroundings.call
  cases s.fate c.clock with
  | works => exact .inl ⟨rfl, heffect⟩
  | fails => exact .inr ⟨by simp, _, _, rfl, rfl⟩
  | failsAfter => exact .inr ⟨by simp, _, _, rfl, by rw [heffect]; exact hcommits⟩

theorem guardDiffHash_ends (repoPath : String) {expectedDiffHash : String} (hexpected : expectedDiffHash ≠ EMPTY_DIFF_HASH)
    (c : Checkout) (trace : List Event) :
    (s.fate c.clock = .works ∧ s.sha256 (s.diffText c.head c.index) = expectedDiffHash ∧
        (guardDiffHash s.host repoPath expectedDiffHash).run ⟨c, trace⟩ = (.ok (), ⟨s.arrive c, trace⟩)) ∨
      (¬(s.fate c.clock = .works ∧ s.sha256 (s.diffText c.head c.index) = expectedDiffHash) ∧
        ∃ e left, (guardDiffHash s.host repoPath expectedDiffHash).run ⟨c, trace⟩ = (.error e, ⟨left, trace⟩) ∧ left.commits = c.commits ∧
          (s.fate c.clock = .works → e = .diffHashMismatch)) := by
  unfold guardDiffHash
  rw [if_neg hexpected, Action.run_bind, unwrapped_run, show s.host.execSync repoPath "git diff --cached" =
    s.call (s.shell "git diff --cached") from rfl]
  have heffect : s.shell "git diff --cached" (s.arrive c) = (.ok (s.diffText c.head c.index), s.arrive c) := rfl
  rcases call_ends heffect rfl with ⟨hworks, hrun⟩ | ⟨hworks, e, left, hrun, hleft⟩
  · rw [hrun, show s.host.sha256 = s.sha256 from rfl]
    dsimp only
    by_cases hhash : s.sha256 (s.diffText c.head c.index) = expectedDiffHash
    · rw [if_neg (not_not_intro hhash)]
      exact .inl ⟨hworks, hhash, rfl⟩
    · rw [if_pos hhash]
      exact .inr ⟨fun h => hhash h.2, _, _, rfl, rfl, fun _ => rfl⟩
  · rw [hrun]
    exact .inr ⟨fun h => hworks h.1, _, _, rfl, hleft, fun h => absurd h hworks⟩

theorem readHead_ends (repoPath : String) (c : Checkout) (trace : List Event) :
    (s.fate c.clock = .works ∧ ∃ head, (unwrapped (s.host.execSync repoPath "git rev-parse HEAD")).run ⟨c, trace⟩ =
        (.ok head, ⟨s.arrive c, trace⟩)) ∨
      (s.fate c.clock ≠ .works ∧ ∃ e left, (unwrapped (s.host.execSync repoPath "git rev-parse HEAD")).run ⟨c, trace⟩ =
        (.error e, ⟨left, trace⟩) ∧ left.commits = c.commits) := by
  rw [unwrapped_run, show s.host.execSync repoPath "git rev-parse HEAD" = s.call (s.shell "git rev-parse HEAD") from rfl]
  have heffect : s.shell "git rev-parse HEAD" (s.arrive c) = (.ok (s.output (s.arrive c).clock "git rev-parse HEAD"), s.arrive c) := rfl
  rcases call_ends heffect rfl with ⟨hworks, hrun⟩ | ⟨hworks, e, left, hrun, hleft⟩
  · rw [hrun]
    exact .inl ⟨hworks, _, rfl⟩
  · rw [hrun]
    exact .inr ⟨hworks, _, left, rfl, hleft⟩

theorem resetHead_ends (repoPath : String) (c : Checkout) (trace : List Event) :
    (s.fate c.clock = .works ∧ ∃ out, (unwrapped (s.host.gitExec "reset HEAD" repoPath)).run ⟨c, trace⟩ =
        (.ok out, ⟨{ s.arrive c with index := c.head }, trace⟩)) ∨
      (s.fate c.clock ≠ .works ∧ ∃ e left, (unwrapped (s.host.gitExec "reset HEAD" repoPath)).run ⟨c, trace⟩ =
        (.error e, ⟨left, trace⟩) ∧ left.commits = c.commits) := by
  unfold Host.gitExec
  rw [unwrapped_run, Action.run_bind, show s.host.execSync repoPath ("git " ++ "reset HEAD") = s.call (s.shell "git reset HEAD") from rfl]
  have heffect : s.shell "git reset HEAD" (s.arrive c) = (.ok "", { s.arrive c with index := c.head }) := rfl
  rcases call_ends heffect rfl with ⟨hworks, hrun⟩ | ⟨hworks, e, left, hrun, hleft⟩
  · rw [hrun]
    exact .inl ⟨hworks, _, rfl⟩
  · rw [hrun]
    exact .inr ⟨hworks, _, left, rfl, hleft⟩

/-- The commits of a publication have the content whose diff was compared exactly when every
    plan that a commit comes of finds it. Where the staged diff is another one, the mismatch
    is thrown and nothing is committed. -/
theorem commits_validated_iff (s : Surroundings) (repoPath : String) (plans : List CommitPlan) {expectedDiffHash : String}
    (hexpected : expectedDiffHash ≠ EMPTY_DIFF_HASH) (settings : Settings) (w : Traced Checkout) :
    let r := (executeMultiCommitAndPush s.host repoPath plans expectedDiffHash settings).run w
    ∃ created, r.2.world.commits = w.world.commits ++ created ∧
      (OnlyValidated s plans expectedDiffHash w.world created r.1 ↔
        (firstDuplicate [] (plans.flatMap (·.files)) = none → Opens s expectedDiffHash w.world →
          StagesValidated s w.world.index w.world 3 w.world.head plans)) := by
  intro r
  have hrun : r = (executeMultiCommitAndPush s.host repoPath plans expectedDiffHash settings).run w := rfl
  -- where the call ends before its loop
  have hnone : ∀ {C : Prop}, r.2.world.commits = w.world.commits → (plans ≠ [] → firstDuplicate [] (plans.flatMap (·.files)) = none →
      s.fate w.world.clock = .works → s.sha256 (s.diffText w.world.head w.world.index) ≠ expectedDiffHash → r.1 = .error .diffHashMismatch) → C →
      ∃ created, r.2.world.commits = w.world.commits ++ created ∧ (OnlyValidated s plans expectedDiffHash w.world created r.1 ↔ C) := by
    intro C hcommits hrefused hC
    exact ⟨[], hcommits.trans (List.append_nil _).symm, fun _ => hC, fun _ => ⟨fun c hc => absurd hc List.not_mem_nil,
      fun h => absurd rfl h, hrefused, fun _ => rfl⟩⟩
  unfold executeMultiCommitAndPush at hrun
  rw [Action.run_bind, show (note (.executing repoPath expectedDiffHash) : Action (Traced Checkout) PublishError Unit).run w =
    (.ok (), ⟨w.world, w.trace ++ [.executing repoPath expectedDiffHash]⟩) from rfl] at hrun
  dsimp only at hrun
  by_cases hempty : plans.isEmpty = true
  · rw [if_pos hempty] at hrun
    refine hnone (by rw [hrun]; rfl) (fun hplans => absurd (List.isEmpty_iff.mp hempty) hplans) fun _ _ => ?_
    rw [List.isEmpty_iff.mp hempty]
    exact True.intro
  rw [if_neg hempty] at hrun
  cases hduplicate : firstDuplicate [] (plans.flatMap (·.files)) with
  | some file =>
    rw [hduplicate] at hrun
    refine hnone (by rw [hrun]; rfl) (fun _ hunique => ?_) fun h => by cases h
    rw [hduplicate] at hunique
    cases hunique
  | none =>
    rw [hduplicate] at hrun
    dsimp only at hrun
    rw [Action.run_bind] at hrun
    rcases guardDiffHash_ends repoPath hexpected w.world (w.trace ++ [.executing repoPath expectedDiffHash]) with
      ⟨hfirst, hhash, hguard⟩ | ⟨hrefused, e, left, hguard, hleft, hmismatch⟩
    rotate_left
    · rw [hguard] at hrun
      refine hnone (by rw [hrun]; exact hleft) (fun _ _ hworks _ => ?_) fun _ hopens => absurd ⟨hopens.2 0 (by omega), hopens.1⟩ hrefused
      rw [hrun, hmismatch hworks]
    rw [hguard] at hrun
    have hunrefused : ∀ {P : Prop}, plans ≠ [] → firstDuplicate [] (plans.flatMap (·.files)) = none → s.fate w.world.clock = .works →
        s.sha256 (s.diffText w.world.head w.world.index) ≠ expectedDiffHash → P := fun _ _ _ hother => absurd hhash hother
    dsimp only at hrun
    rw [Action.run_bind] at hrun
    rcases @readHead_ends s repoPath (s.arrive w.world) (w.trace ++ [.executing repoPath expectedDiffHash]) with
      ⟨hsecond, head, hread⟩ | ⟨hfailed, e, left, hread, hleft⟩
    · rw [hread] at hrun
      dsimp only at hrun
      rw [Action.run_bind] at hrun
      rcases @resetHead_ends s repoPath (s.arrive (s.arrive w.world)) (w.trace ++ [.executing repoPath expectedDiffHash]) with
        ⟨hthird, out, hreset⟩ | ⟨hfailed, e, left, hreset, hleft⟩
      · have hstart : (unwrapped (s.host.gitExec "reset HEAD" repoPath)).run
            ⟨s.arrive (s.arrive w.world), w.trace ++ [.executing repoPath expectedDiffHash]⟩ =
            (.ok out, ⟨loopStart s w.world, w.trace ++ [.executing repoPath expectedDiffHash]⟩) := hreset
        rw [hstart] at hrun
        dsimp only at hrun
        have hreached : Reached s w.world 3 w.world.head w.world.head (loopStart s w.world) := ⟨rfl, rfl, rfl, rfl⟩
        obtain ⟨created, hcreated, hiff⟩ := commitPlans_validated repoPath w.world.index plans (trimString head) plans 0 []
          ⟨loopStart s w.world, w.trace ++ [.executing repoPath expectedDiffHash]⟩ hreached
        have hopens : Opens s expectedDiffHash w.world := by
          refine ⟨hhash, fun n hn => ?_⟩
          rcases (by omega : n = 0 ∨ n = 1 ∨ n = 2) with rfl | rfl | rfl
          · exact hfirst
          · exact hsecond
          · exact hthird
        have hend : r.2.world.commits = w.world.commits ++ created ∧ r.1 ≠ .error .diffHashMismatch := by
          rw [hrun, Action.run_bind]
          have hnot := @commitPlans_not_mismatch s repoPath plans (trimString head) plans 0 []
            ⟨loopStart s w.world, w.trace ++ [.executing repoPath expectedDiffHash]⟩ True.intro
          cases hlanded : (commitPlans s.host repoPath plans (trimString head) 0 [] plans).run
              ⟨loopStart s w.world, w.trace ++ [.executing repoPath expectedDiffHash]⟩ with
          | mk landed w₂ =>
            rw [hlanded] at hcreated hnot
            cases landed with
            | error e => exact ⟨hcreated, fun h => hnot (congrArg Except.error (Except.error.inj h))⟩
            | ok shas =>
              have hkept := (@commits_kept s w₂.world.commits).pushCommits repoPath settings shas (trimString head) w₂ rfl
              exact ⟨hkept.trans hcreated, pushCommits_not_mismatch repoPath settings shas (trimString head) w₂ True.intro⟩
        refine ⟨created, hend.1, fun h _ _ => hiff.mp h.content, fun h => ?_⟩
        exact ⟨hiff.mpr (h rfl hopens), fun _ => hhash, hunrefused, fun hmismatch => absurd hmismatch hend.2⟩
      · rw [hreset] at hrun
        exact hnone (by rw [hrun]; exact hleft) hunrefused fun _ hopens => absurd (hopens.2 2 (by omega)) hfailed
    · rw [hread] at hrun
      exact hnone (by rw [hrun]; exact hleft) hunrefused fun _ hopens => absurd (hopens.2 1 (by omega)) hfailed

end Subprocesses

/-! ## A change after the guard -/

def oneFile (content : Option String) : Tree := fun path => if path = "a.ts" then content else none

def oneFileDiff : String := "diff --git a/a.ts b/a.ts\n--- a/a.ts\n+++ b/a.ts\n@@ -1 +1 @@\n-1\n+2\n"

def oneFileHash : String := "42976ac26f329f267287fae3214bb4bf2ff9cf3aeb25822e6e1721ac9d790a1e"

/-- One file; `edit` is what other processes do to it. -/
def oneFileSurroundings (edit : Nat → Tree → Tree) : Surroundings where
  sha256 text := if text = oneFileDiff then oneFileHash else EMPTY_DIFF_HASH
  localeCompare a b := if a < b then -1 else if a = b then 0 else 1
  paths := ["a.ts"]
  covers file path := file == path
  diffText head index := if head "a.ts" = some "1" ∧ index "a.ts" = some "2" then oneFileDiff else ""
  edit := edit
  fate _ := .works
  output _ _ := "0123456789012345678901234567890123456789"

def oneFilePlans : List CommitPlan := [⟨⟨"fix", none, "count to two", none, false⟩, ["a.ts"]⟩]

def oneFileSettings : Settings where
  provider := "anthropic"
  model := "claude"
  temperature := 0
  autoPush := false
  skipTests := false
  fallbackProvider := none
  fallbackModel := none
  thinking := none
  agent := none
  maxDiffChars := none

/-- The validated change: one to two. -/
def oneFileStart : Traced Checkout := ⟨⟨oneFile (some "1"), oneFile (some "2"), oneFile (some "2"), [], 0⟩, []⟩

def publishOneFile (edit : Nat → Tree → Tree) : Except PublishError Published × Traced Checkout :=
  (executeMultiCommitAndPush (oneFileSurroundings edit).host "/repo" oneFilePlans oneFileHash oneFileSettings).run oneFileStart

theorem unedited_commits_validated : ∃ created, (publishOneFile fun _ tree => tree).2.world.commits = created ∧ created.length = 1 ∧
    ∀ c ∈ created, c.Validated (oneFile (some "2")) := by
  obtain ⟨created, hcreated, hiff⟩ := commits_validated_iff (oneFileSurroundings fun _ tree => tree) "/repo" oneFilePlans
    (show oneFileHash ≠ EMPTY_DIFF_HASH by decide) oneFileSettings oneFileStart
  have hlength : (publishOneFile fun _ tree => tree).2.world.commits.length = 1 := by decide +kernel
  have hsame : (publishOneFile fun _ tree => tree).2.world.commits = created := hcreated
  refine ⟨created, hsame, hsame ▸ hlength, (hiff.mpr fun _ _ => ?_).content⟩
  exact fun _ => ⟨fun path _ => .inl rfl, fun _ => True.intro⟩

/-- The file changes once the guard has passed: the publication returns, and the commit has
    what nothing validated. -/
theorem edit_after_guard : (oneFileSurroundings fun n tree => if n = 3 then oneFile (some "3") else tree).sha256
      ((oneFileSurroundings fun n tree => if n = 3 then oneFile (some "3") else tree).diffText oneFileStart.world.head
        oneFileStart.world.index) = oneFileHash ∧
    (publishOneFile fun n tree => if n = 3 then oneFile (some "3") else tree).1.isOk = true ∧
    ∃ c ∈ (publishOneFile fun n tree => if n = 3 then oneFile (some "3") else tree).2.world.commits,
      c.tree "a.ts" ≠ c.parent "a.ts" ∧ c.tree "a.ts" ≠ oneFileStart.world.index "a.ts" := by
  have hrun : (publishOneFile fun n tree => if n = 3 then oneFile (some "3") else tree).1.isOk = true ∧
      ((publishOneFile fun n tree => if n = 3 then oneFile (some "3") else tree).2.world.commits.any fun c =>
        c.tree "a.ts" != c.parent "a.ts" && c.tree "a.ts" != oneFileStart.world.index "a.ts") = true := by decide
  refine ⟨by decide, hrun.1, ?_⟩
  obtain ⟨c, hc, hchanged⟩ := List.any_eq_true.mp hrun.2
  rw [Bool.and_eq_true, bne_iff_ne, bne_iff_ne] at hchanged
  exact ⟨c, hc, hchanged⟩

end GitCommitsPush.Publication
