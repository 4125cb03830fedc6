/-
  GitCommitsPush.Reconciliation.SingleLive — at most one controller group that accepted
  START is alive, and it is the execution the row records.

  Both halves are `Inv.running`: a controller is sent START only once its execution is
  recorded and authorized, and the record is replaced or cleared only after its group
  is gone. The sample run takes one launcher from an empty table to its first pass.
-/

import GitCommitsPush.Reconciliation.LauncherSteps

namespace GitCommitsPush.Reconciliation

open GitCommitsPush.Lib.JsText
open GitCommitsPush.Lib.Runs

/-- The execution record names this controller and authorizes its START. -/
def ActiveExecutionRecord.Authorizes (e : ActiveExecutionRecord) (token : String) (k : Controller) : Prop :=
  e.token = token ∧ e.groupId = k.pid ∧ e.processIdentity = k.identity ∧ e.state = .startAuthorized

/-- This controller accepted START and its group is alive. -/
def Sys.LiveExecution (s : Sys) (token : String) (k : Controller) : Prop :=
  s.controllers token = some k ∧ k.accepted = true ∧ k.groupAlive = true

theorem Inv.recorded {s : Sys} {c : Coordinator} (hi : Inv s c) {t : String} {k : Controller} (h : s.LiveExecution t k) :
    k.Recorded t c := hi.running t k h.1 ⟨hi.accepted t k h.1 h.2.1, h.2.2⟩

theorem single_live_git_execution {tr : List Event} {s : Sys} (h : Run launcherMachine tr s) :
    (∀ t₁ k₁ t₂ k₂, s.LiveExecution t₁ k₁ → s.LiveExecution t₂ k₂ → t₁ = t₂) ∧
      ∀ t k, s.LiveExecution t k → ∃ state e, readReconcilerState s.db = .ok state ∧
        state.activeExecution = some e ∧ e.Authorizes t k := by
  obtain ⟨c, hi⟩ := inv_run h
  constructor
  · intro t₁ k₁ t₂ k₂ h₁ h₂
    obtain ⟨e₁, he₁, ht₁, -⟩ := hi.recorded h₁
    obtain ⟨e₂, he₂, ht₂, -⟩ := hi.recorded h₂
    rw [he₁] at he₂
    cases he₂
    exact ht₁.symm.trans ht₂
  · intro t k hlive
    obtain ⟨e, he, ht, hg, hid, hst⟩ := hi.recorded hlive
    exact ⟨c.record, e, by rw [hi.db]; exact Coordinator.read_toRow hi.wf, he, ht, hg, hid, hst⟩

/-! ## A launcher's first pass -/

def sampleOptions : RegisterReconciliationOptions := ⟨"owner-a", 100, 1, "birth-100", "cli", "human", none, 5⟩

def sampleLauncher (pc : Pc) (holds : Bool) : Launcher := ⟨sampleOptions, rfl, pc, holds, false, true⟩

def sampleController (startSent accepted alive : Bool) : Controller := ⟨200, "birth-200", alive, alive, startSent, accepted⟩

def samplePrepared : PreparedSupervisorPass := ⟨"execution-a", 200, "birth-200", 200⟩

/-- The launcher alone at `pc`, its controller being `k`, over the row of `c`. -/
def sampleSys (c : Coordinator) (pc : Pc) (holds : Bool) (k : Option Controller) : Sys :=
  { db := [c.toRow]
    launchers := Function.update (fun _ => none) "owner-a" (some (sampleLauncher pc holds))
    controllers := fun t => if t = "execution-a" then k else none }

section Sample

variable {c : Coordinator} {pc : Pc} {holds : Bool} {k : Option Controller} {tr : List Event}

theorem sampleSys_put (c' : Coordinator) (pc' : Pc) (holds' : Bool) :
    { sampleSys c pc holds k with db := [c'.toRow] }.put (sampleLauncher pc' holds') = sampleSys c' pc' holds' k := by
  simp only [Sys.put, sampleSys, sampleLauncher, sampleOptions, Function.update_idem]

theorem sampleSys_putController (k' : Controller) :
    (sampleSys c pc holds k).putController "execution-a" k' = sampleSys c pc holds (some k') := by
  simp only [Sys.putController, sampleSys, Sys.mk.injEq, true_and]
  funext t
  rw [Function.update_apply]
  split <;> rfl

theorem sampleSys_launcher : (sampleSys c pc holds k).launchers "owner-a" = some (sampleLauncher pc holds) := by
  simp [sampleSys]

theorem sample_launcher_step (h : Run launcherMachine tr (sampleSys c pc holds k)) {e : Event} {s' : Sys}
    (hs : LauncherStep (sampleSys c pc holds k) (sampleLauncher pc holds) e s') : Run launcherMachine (tr ++ [e]) s' :=
  h.snoc (Step.launcher _ sampleSys_launcher rfl hs)

/-- A step of the launcher that leaves its controller alone. -/
theorem sample_step (h : Run launcherMachine tr (sampleSys c pc holds k)) {e : Event} (c' : Coordinator) (pc' : Pc)
    (holds' : Bool) (hs : LauncherStep (sampleSys c pc holds k) (sampleLauncher pc holds) e
      ({ sampleSys c pc holds k with db := [c'.toRow] }.put (sampleLauncher pc' holds'))) :
    Run launcherMachine (tr ++ [e]) (sampleSys c' pc' holds' k) := by
  have := sample_launcher_step h hs
  rwa [sampleSys_put] at this

/-- A step of the launcher that spawns its controller or sends it START. -/
theorem sample_controller_step (h : Run launcherMachine tr (sampleSys c pc holds k)) {e : Event} (c' : Coordinator)
    (pc' : Pc) (k' : Controller)
    (hs : LauncherStep (sampleSys c pc holds k) (sampleLauncher pc holds) e
      (({ sampleSys c pc holds k with db := [c'.toRow] }.putController "execution-a" k').put
        (sampleLauncher pc' true))) :
    Run launcherMachine (tr ++ [e]) (sampleSys c' pc' true (some k')) := by
  have := sample_launcher_step h hs
  rwa [show { sampleSys c pc holds k with db := [c'.toRow] } = sampleSys c' pc holds k from rfl,
    sampleSys_putController, ← sampleSys_put (c := c') c' pc' true] at *

end Sample

def sampleOwned : Coordinator := Coordinator.initial.acquire sampleOptions

def sampleExecution (state : ActiveExecutionState) : ActiveExecutionRecord :=
  ⟨"execution-a", 1, 200, "birth-200", 200, posixExecutionBoundaryKind, "owner-a", state⟩

def sampleRecorded (state : ActiveExecutionState) : Coordinator := { sampleOwned with execution := sampleExecution state }

/-- The launcher registers over an empty table. -/
theorem sample_owner : Run launcherMachine
    [.other, .other, .other, .other, .registered "owner-a" (.owner 1 0 false none false)]
    (sampleSys sampleOwned (.recovering 1) true none) := by
  have h1 : Run launcherMachine [.other] (sampleSys .initial (.admission 0) false none) := by
    have := (Run.start (M := launcherMachine) (s := initialSys) rfl).snoc
      (Step.enter (sampleLauncher (.admission 0) false) rfl (fun _ _ h => by cases h) rfl rfl rfl)
    rwa [show initialSys.put (sampleLauncher (.admission 0) false) = sampleSys .initial (.admission 0) false none by
      simp [Sys.put, initialSys, sampleSys, sampleLauncher, sampleOptions, initial_toRow]] at this
  have h2 := sample_step h1 .initial (.observing 0 Coordinator.initial.record) false
    (.read 0 Coordinator.initial.record rfl (Coordinator.read_toRow initial_wf))
  have h3 := sample_step h2 .initial (.identifying 0 Coordinator.initial.record false) false
    (.probe 0 Coordinator.initial.record false rfl fun _ _ _ h => by cases h)
  have h4 := sample_step h3 .initial (.deciding 0 Coordinator.initial.record false none) false
    (.identify 0 Coordinator.initial.record false none rfl fun _ _ h => by cases h)
  exact sample_step h4 sampleOwned (.recovering 1) true
    (.commitAttempt 0 Coordinator.initial.record false none (.ok (.owner 1 0 false none false)) [sampleOwned.toRow] rfl
      (by decide) (by decide))

/-- It spawns, records and starts its controller, which accepts START. -/
theorem sample_started : Run launcherMachine
    ([.other, .other, .other, .other, .registered "owner-a" (.owner 1 0 false none false), .other, .other] ++
      [.passStarted "owner-a" 1, .other, .other, .other, .other, .other, .other])
    (sampleSys (sampleRecorded .startAuthorized) (.awaiting 1 samplePrepared) true
      (some (sampleController true true true))) := by
  have h1 := sample_step sample_owner sampleOwned (.preparing 1) true (.recover 1 rfl)
  have h2 := sample_step h1 sampleOwned (.passStarting 1) true (.prepared 1 rfl)
  have h3 := sample_step h2 sampleOwned (.spawning 1) true (.passStart 1 rfl)
  have h4 := sample_controller_step h3 sampleOwned (.handshaking 1 "execution-a") (sampleController false false true)
    (.spawn 1 "execution-a" (sampleController false false true) rfl rfl rfl rfl)
  have h5 := sample_step h4 sampleOwned (.registering 1 samplePrepared) true
    (.ready 1 "execution-a" (sampleController false false true) rfl rfl)
  have h6 := sample_step h5 (sampleRecorded .registered) (.registered 1 samplePrepared) true
    (.register 1 samplePrepared (.ok (sampleExecution .registered)) [(sampleRecorded .registered).toRow] rfl rfl
      (by decide))
  have h7 := sample_step h6 (sampleRecorded .startAuthorized) (.starting 1 samplePrepared) true
    (.authorize 1 samplePrepared (.ok true) [(sampleRecorded .startAuthorized).toRow] rfl rfl (by decide))
  have h8 := sample_controller_step h7 (sampleRecorded .startAuthorized) (.awaiting 1 samplePrepared)
    (sampleController true false true) (.sendStart 1 samplePrepared (sampleController false false true) rfl rfl)
  have hk : (sampleSys (sampleRecorded .startAuthorized) (.awaiting 1 samplePrepared) true
      (some (sampleController true false true))).controllers "execution-a" = some (sampleController true false true) := rfl
  have h9 := h8.snoc (.controller _ hk (.acceptStart rfl rfl rfl))
  rwa [sampleSys_putController] at h9

theorem single_live_git_execution_started : ∃ s : Sys, s.LiveExecution "execution-a" (sampleController true true true) ∧
    ∃ state e, readReconcilerState s.db = .ok state ∧ state.activeExecution = some e ∧
      e.Authorizes "execution-a" (sampleController true true true) :=
  ⟨_, ⟨rfl, rfl, rfl⟩, (single_live_git_execution sample_started).2 _ _ ⟨rfl, rfl, rfl⟩⟩

end GitCommitsPush.Reconciliation
