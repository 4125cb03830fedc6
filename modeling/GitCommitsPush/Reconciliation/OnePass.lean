/-
  GitCommitsPush.Reconciliation.OnePass — one pass of the launcher and its error paths
  (`runOnePass`, `owned-reconciliation-loop.ts`).

  A `PassHost` answers each call by how many calls were made before it: what the prepared
  pass does, whether the run is cancelled, whether SQLite fails, and what other processes
  have committed to the table meanwhile. They may commit anything but this pass's token,
  which is drawn fresh.

  `runOnePass_keeps_evidence`: the record is cleared only after the boundary was proven
  dead; and the pass settles with an aggregate error, or with the boundary proven dead and
  no record that carries its token.
-/

import GitCommitsPush.Lib.Log
import GitCommitsPush.Reconciliation.Coordinator
import GitCommitsPush.Reconciliation.Launchers

namespace GitCommitsPush.Reconciliation

open GitCommitsPush.Lib.Effect
open GitCommitsPush.Lib.Fallible
open GitCommitsPush.Lib.Log (EveryEntry)

inductive PassError where
  | error (message : String)
  | reconciler (error : ReconcilerError)
  /-- `AggregateError`. -/
  | aggregate (error cleanupError : PassError)
  deriving Repr

/-- A call of the pass; `returned` is false when it threw. -/
inductive PassEvent where
  | prepared (returned : Bool)
  | registering
  | authorizing
  | clearing
  | started (returned : Bool)
  | terminated (returned : Bool)
  | disconnected
  deriving DecidableEq, Repr

structure PassWorld where
  db : Db
  events : List PassEvent

/-- Some record in the table carries the token. -/
def Carries (token : String) (db : Db) : Prop := ∃ row ∈ db, row.executionToken = some token

structure PassHost (executionToken : String) where
  prepare : Except PassError PreparedSupervisorPass
  aborted : Nat → Bool
  start : Nat → Except PassError SupervisorPassResult
  terminate : Nat → Except PassError Unit
  /-- A database call that fails before it has committed. -/
  fault : Nat → Option ReconcilerError
  /-- What other processes have committed before the call. -/
  others : Nat → Db → Db
  others_fresh : ∀ n db, Carries executionToken (others n db) → Carries executionToken db

/-! ## The source -/

section Source

variable {executionToken : String} (host : PassHost executionToken) (ownerToken : String) (ownerPid generation : Int)

/-- A call that is awaited. -/
def awaitCall {α : Type} (event : Bool → PassEvent) (answer : Nat → Except PassError α) : Action PassWorld PassError α :=
  fun w => (answer w.events.length,
    ⟨host.others w.events.length w.db, w.events ++ [event (answer w.events.length).toOption.isSome]⟩)

/-- A call of a coordinator operation. -/
def dbCall {α : Type} (event : PassEvent) (operation : Db → Except ReconcilerError α × Db) : Action PassWorld PassError α :=
  fun w =>
    let db := host.others w.events.length w.db
    match host.fault w.events.length with
    | some e => (.error (.reconciler e), ⟨db, w.events ++ [event]⟩)
    | none => ((operation db).1.mapError .reconciler, ⟨(operation db).2, w.events ++ [event]⟩)

def isAborted {ε : Type} : Action PassWorld ε Bool := fun w => (.ok (host.aborted w.events.length), w)

def terminatePrepared : Action PassWorld PassError Unit := awaitCall host .terminated host.terminate

def clearPrepared : Action PassWorld PassError Bool :=
  dbCall host .clearing fun db => clearActiveExecution db ⟨ownerToken, ownerPid, executionToken⟩

/-- An error of the `try` block, with `registered` as it was when it was thrown. -/
structure PassFailure where
  error : PassError
  registered : Bool

def withRegistered {α : Type} (registered : Bool) (x : Action PassWorld PassError α) : Action PassWorld PassFailure α :=
  x.attempt fun error => .throw ⟨error, registered⟩

/-- The `try` block from the registration on. -/
def registeredPass : Action PassWorld PassFailure SupervisorPassResult := do
  if ← isAborted host then
    withRegistered true (terminatePrepared host)
    if ← withRegistered true (clearPrepared host ownerToken ownerPid) then return cancelledPass
    else .throw ⟨.error "cancelled execution could not be durably cleared", true⟩
  else if ← withRegistered true (dbCall host .authorizing fun db =>
      authorizeActiveExecutionStart db ⟨ownerToken, ownerPid, executionToken⟩) then
    let pass ← withRegistered true (awaitCall host .started host.start)
    if ← withRegistered true (clearPrepared host ownerToken ownerPid) then return pass
    else .throw ⟨.error "terminated execution could not be durably cleared", true⟩
  else .throw ⟨.error "execution START authorization was fenced", true⟩

def tryPass (prepared : PreparedSupervisorPass) : Action PassWorld PassFailure SupervisorPassResult := do
  if ← isAborted host then
    withRegistered false (terminatePrepared host)
    return cancelledPass
  else
    let _ ← withRegistered false (dbCall host .registering fun db => registerActiveExecution db
      { ownerToken, ownerPid, generation, executionToken, executionPid := prepared.pid,
        executionProcessIdentity := prepared.processIdentity, executionGroupId := prepared.groupId,
        executionBoundaryKind := posixExecutionBoundaryKind })
    registeredPass host ownerToken ownerPid

/-- What the `catch` block does before it throws the error again. -/
def cleanUp (registered : Bool) : Action PassWorld PassError Unit := do
  terminatePrepared host
  if registered then
    if ← clearPrepared host ownerToken ownerPid then return else .throw (.error "execution cleanup was fenced")
  else return

def disconnect : Action PassWorld PassError Unit := fun w => (.ok (), { w with events := w.events ++ [.disconnected] })

def catchPass (failure : PassFailure) : Action PassWorld PassError SupervisorPassResult := do
  (cleanUp host ownerToken ownerPid failure.registered).attempt fun cleanupError => do
    disconnect
    .throw (.aggregate failure.error cleanupError)
  .throw failure.error

def runOnePass : Action PassWorld PassError SupervisorPassResult := do
  let prepared ← awaitCall host .prepared fun _ => host.prepare
  (tryPass host ownerToken ownerPid generation prepared).attempt (catchPass host ownerToken ownerPid)

end Source

/-! ## Evidence -/

/-- `start` or `terminate` has returned: the group was seen to be gone. -/
def ProvenDead (events : List PassEvent) : Prop := .started true ∈ events ∨ .terminated true ∈ events

/-- The record is cleared only once the boundary is proven dead. -/
def Evidenced (events : List PassEvent) : Prop :=
  EveryEntry (fun before event _ => event = .clearing → ProvenDead before) events

theorem ProvenDead.append {events : List PassEvent} (h : ProvenDead events) (more : List PassEvent) :
    ProvenDead (events ++ more) := by
  rcases h with h | h
  · exact .inl (List.mem_append_left more h)
  · exact .inr (List.mem_append_left more h)

theorem Evidenced.snoc {events : List PassEvent} (h : Evidenced events) {event : PassEvent}
    (hevent : event = .clearing → ProvenDead events) : Evidenced (events ++ [event]) :=
  EveryEntry.snoc h hevent

section Steps

variable {executionToken : String} {host : PassHost executionToken} {ownerToken : String} {ownerPid generation : Int}

/-- What every point of the pass knows: the evidence is kept, and where `fresh` no record
    carries the token. -/
structure Kept (executionToken : String) (fresh : Prop) (w : PassWorld) : Prop where
  evidenced : Evidenced w.events
  fresh : fresh → ¬Carries executionToken w.db

/-- The pass may return from here. -/
structure Done (executionToken : String) (w : PassWorld) : Prop where
  evidenced : Evidenced w.events
  dead : ProvenDead w.events
  absent : ¬Carries executionToken w.db

theorem awaitCall_triple {α : Type} {fresh : Prop} {event : Bool → PassEvent} {answer : Nat → Except PassError α}
    (hevent : ∀ b, event b ≠ .clearing) :
    Action.Triple (Kept executionToken fresh) (awaitCall host event answer) fun r w =>
      Kept executionToken fresh w ∧ ∀ a, r = .ok a → event true ∈ w.events := by
  intro w h
  refine ⟨⟨h.evidenced.snoc fun he => absurd he (hevent _), fun hfresh hcarries => ?_⟩, fun a ha => ?_⟩
  · exact h.fresh hfresh (host.others_fresh _ _ hcarries)
  · have hanswer : answer w.events.length = .ok a := ha
    show event true ∈ w.events ++ [event (answer w.events.length).toOption.isSome]
    rw [hanswer]
    exact List.mem_append_right _ (List.mem_singleton_self _)

theorem terminatePrepared_triple {fresh : Prop} :
    Action.Triple (Kept executionToken fresh) (terminatePrepared host) fun r w =>
      Kept executionToken fresh w ∧ (r = .ok () → ProvenDead w.events) := by
  refine Action.Triple.conseq (awaitCall_triple fun b h => by cases h) (fun _ h => h) ?_
  intro r w h
  exact ⟨h.1, fun hr => .inr (h.2 () hr)⟩

theorem isAborted_triple {ε : Type} {P : PassWorld → Prop} :
    Action.Triple P (isAborted host : Action PassWorld ε Bool) fun r w => P w ∧ ∃ b, r = .ok b :=
  fun _ h => ⟨h, _, rfl⟩

/-- A record cleared is gone: every row satisfies the checks of the table. -/
theorem clear_not_carries {db db' : Db} {options : FenceActiveExecutionOptions}
    (h : clearActiveExecution db options = (.ok true, db')) : ¬Carries options.executionToken db' := by
  simp only [clearActiveExecution, transaction_ok, bind_eq_ok, ite_eq_ok, pure_eq_ok, Prod.mk.injEq] at h
  obtain ⟨state, -, u, -, h⟩ := h
  rcases h with ⟨-, h, -⟩ | ⟨-, ⟨changes, updated⟩, hupdate, -, rfl⟩
  · cases h
  · intro hcarries
    obtain ⟨row, hrow, htoken⟩ := hcarries
    unfold updateState at hupdate
    dsimp only at hupdate
    split at hupdate
    · rename_i hchecks
      cases hupdate
      have hcheck := List.all_eq_true.mp hchecks row hrow
      obtain ⟨before, -, rfl⟩ := List.mem_map.mp hrow
      by_cases hhit : (before.singletonId == 1 && before.executionToken == some options.executionToken) = true
      · rw [if_pos hhit] at htoken
        cases htoken
      · rw [if_neg hhit] at htoken hcheck
        apply hhit
        simp only [satisfiesChecks, Bool.and_eq_true] at hcheck
        rw [htoken, hcheck.1]
        simp
    · cases hupdate

theorem clearPrepared_triple :
    Action.Triple (fun w => Evidenced w.events ∧ ProvenDead w.events) (clearPrepared host ownerToken ownerPid) fun r w =>
      Evidenced w.events ∧ ProvenDead w.events ∧ (r = .ok true → ¬Carries executionToken w.db) := by
  intro w ⟨hevidenced, hdead⟩
  have hevents : ((clearPrepared host ownerToken ownerPid).run w).2.events = w.events ++ [.clearing] := by
    unfold clearPrepared dbCall Action.run
    dsimp only
    split <;> rfl
  rw [hevents]
  refine ⟨hevidenced.snoc fun _ => hdead, hdead.append _, ?_⟩
  unfold clearPrepared dbCall Action.run
  dsimp only
  split
  · intro hr
    cases hr
  · intro hr
    generalize hclear : clearActiveExecution (host.others w.events.length w.db) ⟨ownerToken, ownerPid, executionToken⟩ = out at hr ⊢
    obtain ⟨r, db'⟩ := out
    cases r with
    | error e => cases hr
    | ok b =>
      cases hr
      exact clear_not_carries hclear

theorem withRegistered_triple {α : Type} {registered : Bool} {x : Action PassWorld PassError α} {P : PassWorld → Prop}
    {Q : α → PassWorld → Prop} {E : PassWorld → Prop}
    (hx : Action.Triple P x fun r w => (∀ a, r = .ok a → Q a w) ∧ (∀ e, r = .error e → E w)) :
    Action.Triple P (withRegistered registered x) fun r w =>
      (∀ a, r = .ok a → Q a w) ∧ (∀ failure, r = .error failure → failure.registered = registered ∧ E w) := by
  unfold withRegistered
  refine Action.Triple.attempt hx ?_ ?_
  · intro a w h
    exact ⟨fun a' ha => h.1 a' (by cases ha; rfl), fun failure hf => (by cases hf)⟩
  · intro e
    refine Action.Triple.throw fun w h => ?_
    refine ⟨fun a ha => (by cases ha), fun failure hf => ?_⟩
    cases hf
    exact ⟨rfl, h.2 e rfl⟩

/-- How the `try` block leaves the world. -/
def TryPost (executionToken : String) (r : Except PassFailure SupervisorPassResult) (w : PassWorld) : Prop :=
  (∀ pass, r = .ok pass → Done executionToken w) ∧
    (∀ failure, r = .error failure → Kept executionToken (failure.registered = false) w)

/-- A call and, if it answers true, the return. -/
theorem clear_then {pass : SupervisorPassResult} {message : String} :
    Action.Triple (fun w => Evidenced w.events ∧ ProvenDead w.events)
      (withRegistered true (clearPrepared host ownerToken ownerPid) >>= fun cleared =>
        if cleared = true then pure pass else Action.throw ⟨.error message, true⟩) (TryPost executionToken) := by
  refine Action.Triple.bind (withRegistered_triple (P := fun w => Evidenced w.events ∧ ProvenDead w.events)
    (Q := fun cleared w => Evidenced w.events ∧ ProvenDead w.events ∧ (cleared = true → ¬Carries executionToken w.db))
    (E := fun w => Evidenced w.events) ?_) ?_ ?_
  · refine Action.Triple.conseq clearPrepared_triple (fun _ h => h) ?_
    intro r w h
    exact ⟨fun cleared hr => ⟨h.1, h.2.1, fun hc => h.2.2 (by rw [hr, hc])⟩, fun _ _ => h.1⟩
  · intro cleared
    refine Action.Triple.ite ?_ ?_
    · intro hcleared
      refine Action.Triple.pure fun w h => ⟨fun _ _ => ?_, fun failure hf => (by cases hf)⟩
      have h := h.1 cleared rfl
      exact ⟨h.1, h.2.1, h.2.2 hcleared⟩
    · intro _
      refine Action.Triple.throw fun w h => ⟨fun pass hp => (by cases hp), fun failure hf => ?_⟩
      cases hf
      exact ⟨(h.1 cleared rfl).1, fun hfresh => (by cases hfresh)⟩
  · intro failure w h
    refine ⟨fun pass hp => (by cases hp), fun failure' hf => ?_⟩
    cases hf
    obtain ⟨hregistered, hevidenced⟩ := h.2 failure rfl
    exact ⟨hevidenced, fun hfresh => (by rw [hregistered] at hfresh; cases hfresh)⟩

/-- An awaited call of the `try` block, and what follows it. -/
theorem call_then {α : Type} {fresh : Prop} {registered : Bool} {x : Action PassWorld PassError α}
    {f : α → Action PassWorld PassFailure SupervisorPassResult} {Q : PassWorld → Prop}
    (hfresh : registered = false → fresh)
    (hx : Action.Triple (Kept executionToken fresh) x fun r w =>
      (∀ a, r = .ok a → Q w) ∧ (∀ e, r = .error e → Kept executionToken fresh w))
    (hf : ∀ a, Action.Triple Q (f a) (TryPost executionToken)) :
    Action.Triple (Kept executionToken fresh) (withRegistered registered x >>= f) (TryPost executionToken) := by
  refine Action.Triple.bind (withRegistered_triple (Q := fun _ => Q) hx) ?_ ?_
  · intro a
    exact Action.Triple.conseq (hf a) (fun w h => h.1 a rfl) fun _ _ h => h
  · intro failure w h
    refine ⟨fun pass hp => (by cases hp), fun failure' hfailure => ?_⟩
    cases hfailure
    obtain ⟨hregistered, hkept⟩ := h.2 failure rfl
    exact ⟨hkept.evidenced, fun hfalse => hkept.fresh (hfresh (hregistered.symm.trans hfalse))⟩

theorem registeredPass_triple :
    Action.Triple (Kept executionToken False) (registeredPass host ownerToken ownerPid) (TryPost executionToken) := by
  have hthrow : ∀ message, Action.Triple (Kept executionToken False)
      (Action.throw ⟨.error message, true⟩ : Action PassWorld PassFailure SupervisorPassResult) (TryPost executionToken) := by
    intro message
    refine Action.Triple.throw fun w h => ⟨fun pass hp => (by cases hp), fun failure hf => ?_⟩
    cases hf
    exact ⟨h.evidenced, fun hfalse => (by cases hfalse)⟩
  unfold registeredPass
  refine Action.Triple.bind (isAborted_triple (P := Kept executionToken False)) ?_ fun e w h => (by cases h.2.choose_spec)
  intro aborted
  refine Action.Triple.conseq (P := Kept executionToken False) ?_ (fun w h => h.1) fun _ _ h => h
  refine Action.Triple.ite ?_ ?_
  · -- cancelled after the registration
    intro _
    refine call_then (fun h => (by cases h)) (Q := fun w => Evidenced w.events ∧ ProvenDead w.events) ?_ fun _ => clear_then
    refine Action.Triple.conseq terminatePrepared_triple (fun _ h => h) fun r w h => ?_
    exact ⟨fun _ hr => ⟨h.1.evidenced, h.2 hr⟩, fun _ _ => h.1⟩
  · intro _
    refine call_then (fun h => (by cases h)) (Q := Kept executionToken False) ?_ ?_
    · intro w h
      have hkept : Kept executionToken False ((dbCall host .authorizing fun db =>
          authorizeActiveExecutionStart db ⟨ownerToken, ownerPid, executionToken⟩).run w).2 := by
        refine ⟨?_, fun hfalse => hfalse.elim⟩
        have hevents : ((dbCall host .authorizing fun db =>
            authorizeActiveExecutionStart db ⟨ownerToken, ownerPid, executionToken⟩).run w).2.events =
            w.events ++ [.authorizing] := by
          unfold dbCall Action.run
          dsimp only
          split <;> rfl
        rw [hevents]
        exact h.evidenced.snoc fun he => (by cases he)
      exact ⟨fun _ _ => hkept, fun _ _ => hkept⟩
    · intro authorized
      refine Action.Triple.ite ?_ fun _ => hthrow _
      intro _
      refine call_then (fun h => (by cases h)) (Q := fun w => Evidenced w.events ∧ ProvenDead w.events) ?_
        fun _ => clear_then
      refine Action.Triple.conseq (awaitCall_triple fun b h => (by cases h)) (fun _ h => h) fun r w h => ?_
      exact ⟨fun a hr => ⟨h.1.evidenced, .inl (h.2 a hr)⟩, fun _ _ => h.1⟩

theorem tryPass_triple (prepared : PreparedSupervisorPass) :
    Action.Triple (Kept executionToken True) (tryPass host ownerToken ownerPid generation prepared)
      (TryPost executionToken) := by
  unfold tryPass
  refine Action.Triple.bind (isAborted_triple (P := Kept executionToken True)) ?_ fun e w h => (by cases h.2.choose_spec)
  intro aborted
  refine Action.Triple.conseq (P := Kept executionToken True) ?_ (fun w h => h.1) fun _ _ h => h
  refine Action.Triple.ite ?_ ?_
  · -- cancelled before the registration
    intro _
    refine call_then (fun _ => True.intro) (Q := Done executionToken) ?_ ?_
    · refine Action.Triple.conseq terminatePrepared_triple (fun _ h => h) fun r w h => ?_
      exact ⟨fun _ hr => ⟨h.1.evidenced, h.2 hr, h.1.fresh True.intro⟩, fun _ _ => h.1⟩
    · intro _
      exact Action.Triple.pure fun w h => ⟨fun _ _ => h, fun failure hf => (by cases hf)⟩
  · intro _
    refine call_then (fun _ => True.intro) (Q := Kept executionToken False) ?_ fun _ => registeredPass_triple
    intro w h
    -- a registration that throws leaves the table as it was
    unfold dbCall Action.run
    dsimp only
    split
    · refine ⟨fun a hr => (by cases hr), fun _ _ => ⟨h.evidenced.snoc fun he => (by cases he), fun _ hcarries => ?_⟩⟩
      exact h.fresh True.intro (host.others_fresh _ _ hcarries)
    · refine ⟨fun a hr => ⟨h.evidenced.snoc fun he => (by cases he), fun hfalse => hfalse.elim⟩, fun e hr => ?_⟩
      refine ⟨h.evidenced.snoc fun he => (by cases he), fun _ hcarries => ?_⟩
      generalize hregister : registerActiveExecution (host.others w.events.length w.db) _ = out at hr hcarries
      obtain ⟨r, db'⟩ := out
      cases r with
      | ok record => cases hr
      | error e =>
        have hunchanged := registerExecution_error (by rw [hregister])
        rw [hregister] at hunchanged
        have hsame : db' = host.others w.events.length w.db := hunchanged
        exact h.fresh True.intro (host.others_fresh _ _ (hsame ▸ hcarries))

theorem cleanUp_triple (registered : Bool) :
    Action.Triple (Kept executionToken (registered = false)) (cleanUp host ownerToken ownerPid registered) fun r w =>
      Evidenced w.events ∧ (r = .ok () → Done executionToken w) := by
  unfold cleanUp
  refine Action.Triple.bind terminatePrepared_triple ?_ ?_
  · intro _
    refine Action.Triple.ite ?_ ?_
    · intro _
      refine Action.Triple.bind (Action.Triple.conseq clearPrepared_triple (fun w h => ⟨h.1.evidenced, h.2 rfl⟩)
        fun _ _ h => h) ?_ ?_
      · intro cleared
        refine Action.Triple.ite ?_ ?_
        · rintro rfl
          exact Action.Triple.pure fun w h => ⟨h.1, fun _ => ⟨h.1, h.2.1, h.2.2 rfl⟩⟩
        · intro _
          exact Action.Triple.throw fun w h => ⟨h.1, fun hr => (by cases hr)⟩
      · intro e w h
        exact ⟨h.1, fun hr => (by cases hr)⟩
    · intro hregistered
      exact Action.Triple.pure fun w h =>
        ⟨h.1.evidenced, fun _ => ⟨h.1.evidenced, h.2 rfl, h.1.fresh (by simpa using hregistered)⟩⟩
  · intro e w h
    exact ⟨h.1.evidenced, fun hr => (by cases hr)⟩

/-- How the pass settles. -/
structure Settled (executionToken : String) (r : Except PassError SupervisorPassResult) (w : PassWorld) : Prop where
  evidenced : Evidenced w.events
  outcome : (∃ error cleanupError, r = .error (.aggregate error cleanupError)) ∨
    ProvenDead w.events ∧ ¬Carries executionToken w.db

theorem catchPass_triple (failure : PassFailure) :
    Action.Triple (Kept executionToken (failure.registered = false)) (catchPass host ownerToken ownerPid failure)
      (Settled executionToken) := by
  unfold catchPass
  refine Action.Triple.bind (Q := fun r w => (∀ u, r = .ok u → Done executionToken w) ∧ ∀ e, r = .error e →
    Evidenced w.events ∧ ∃ cleanupError, e = .aggregate failure.error cleanupError) ?_ ?_ ?_
  · refine Action.Triple.attempt (cleanUp_triple failure.registered) ?_ ?_
    · intro u w h
      exact ⟨fun _ _ => h.2 rfl, fun e he => (by cases he)⟩
    · intro cleanupError w h
      refine ⟨fun u hu => (by cases hu), fun e he => ?_⟩
      cases he
      exact ⟨h.1.snoc fun he => (by cases he), cleanupError, rfl⟩
  · intro u
    refine Action.Triple.throw fun w h => ?_
    have hdone := h.1 u rfl
    exact ⟨hdone.evidenced, .inr ⟨hdone.dead, hdone.absent⟩⟩
  · intro e w h
    obtain ⟨hevidenced, cleanupError, rfl⟩ := h.2 e rfl
    exact ⟨hevidenced, .inl ⟨failure.error, cleanupError, rfl⟩⟩

end Steps

/-- Whatever the calls answer and whenever the run is cancelled: the record is cleared only
    after `start` or `terminate` has returned; and once a controller was prepared, the pass
    settles with an aggregate error, or with the boundary proven dead and no record of its
    token. -/
theorem runOnePass_keeps_evidence {executionToken : String} (host : PassHost executionToken) (ownerToken : String)
    (ownerPid generation : Int) (db : Db) (hfresh : ¬Carries executionToken db) :
    let run := (runOnePass host ownerToken ownerPid generation).run ⟨db, []⟩
    Evidenced run.2.events ∧ (.prepared true ∈ run.2.events →
      (∃ error cleanupError, run.1 = .error (.aggregate error cleanupError)) ∨
        ProvenDead run.2.events ∧ ¬Carries executionToken run.2.db) := by
  have hstart : Kept executionToken True ⟨db, []⟩ := ⟨EveryEntry.nil, fun _ => hfresh⟩
  have htriple : Action.Triple (fun w => Kept executionToken True w ∧ w.events = [])
      (runOnePass host ownerToken ownerPid generation) fun r w =>
        Settled executionToken r w ∨ Evidenced w.events ∧ w.events = [.prepared false] := by
    unfold runOnePass
    refine Action.Triple.bind (Q := fun r w => Kept executionToken True w ∧
      ∀ e, r = .error e → w.events = [.prepared false]) ?_ ?_ ?_
    · intro w ⟨hkept, hempty⟩
      refine ⟨(awaitCall_triple (fun b h => (by cases h)) w hkept).1, fun e he => ?_⟩
      have hprepare : host.prepare = .error e := he
      show w.events ++ [PassEvent.prepared host.prepare.toOption.isSome] = _
      rw [hempty, hprepare]
      rfl
    · intro prepared
      refine Action.Triple.conseq (P := Kept executionToken True) ?_ (fun w h => h.1) fun r w h => .inl h
      refine Action.Triple.attempt (tryPass_triple prepared) ?_ ?_
      · intro pass w h
        have hdone := h.1 pass rfl
        exact ⟨hdone.evidenced, .inr ⟨hdone.dead, hdone.absent⟩⟩
      · intro failure
        exact Action.Triple.conseq (catchPass_triple failure) (fun w h => h.2 failure rfl) fun _ _ h => h
    · intro e w h
      exact .inr ⟨h.1.evidenced, h.2 e rfl⟩
  rcases htriple ⟨db, []⟩ ⟨hstart, rfl⟩ with hsettled | ⟨hevidenced, hevents⟩
  · exact ⟨hsettled.evidenced, fun _ => hsettled.outcome⟩
  · refine ⟨hevidenced, fun hprepared => ?_⟩
    rw [hevents] at hprepared
    simp at hprepared

/-! ### A pass that succeeds -/

def quietPassHost : PassHost "execution-a" where
  prepare := .ok ⟨"execution-a", 200, "birth-200", 200⟩
  aborted _ := false
  start _ := .ok ⟨some 0, none, none, some 300⟩
  terminate _ := .ok ()
  fault _ := none
  others _ db := db
  others_fresh _ _ h := h

def ownedDb : Db := [(Coordinator.initial.acquire ⟨"owner-a", 100, 1, "birth-100", "cli", "human", none, 5⟩).toRow]

def quietRun : Except PassError SupervisorPassResult × PassWorld :=
  (runOnePass quietPassHost "owner-a" 100 1).run ⟨ownedDb, []⟩

example : quietRun.1.toOption = some ⟨some 0, none, none, some 300⟩ ∧ quietRun.2.db = ownedDb := by decide

theorem runOnePass_keeps_evidence_sample : Evidenced quietRun.2.events ∧ (.prepared true ∈ quietRun.2.events →
    (∃ error cleanupError, quietRun.1 = .error (.aggregate error cleanupError)) ∨
      ProvenDead quietRun.2.events ∧ ¬Carries "execution-a" quietRun.2.db) := by
  refine runOnePass_keeps_evidence quietPassHost "owner-a" 100 1 ownedDb ?_
  intro ⟨row, hrow, htoken⟩
  cases List.mem_singleton.mp hrow
  cases htoken

end GitCommitsPush.Reconciliation
