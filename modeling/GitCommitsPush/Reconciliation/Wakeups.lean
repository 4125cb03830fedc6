/-
  GitCommitsPush.Reconciliation.Wakeups — a request coalesced into a running pass is
  served by a later one.

  The labels of a run are its history: which generations registrations returned, which
  passes started, which were finalised and how. `History` relates them to the row:
  - the registrations so far returned 1 up to the row's requested generation;
  - a pass in hand started when its generation was already registered;
  - the completed generation is that of a pass finalised with success.
  `history_run` is the induction. A request that lands after a pass started has a
  greater generation than the pass, so completing the pass does not complete it.
-/

import GitCommitsPush.Reconciliation.SingleLive

namespace GitCommitsPush.Reconciliation

open GitCommitsPush.Lib.JsText
open GitCommitsPush.Lib.Runs

/-! ## Histories -/

def Event.registration : Event → Option Int
  | .registered _ result => some result.generation
  | _ => none

/-- The generations registrations returned, oldest first. -/
def registrations (tr : List Event) : List Int := tr.filterMap Event.registration

theorem registrations_snoc (tr : List Event) (e : Event) :
    registrations (tr ++ [e]) = registrations tr ++ e.registration.toList := by
  simp only [registrations, List.filterMap_append, List.filterMap_cons, List.filterMap_nil]
  cases e.registration <;> rfl

/-- The generations `1` to `n`. -/
def generationsUpTo (n : Nat) : List Int := (List.range n).map fun (i : Nat) => (i : Int) + 1

theorem generationsUpTo_succ (n : Nat) : generationsUpTo (n + 1) = generationsUpTo n ++ [(n : Int) + 1] := by
  simp [generationsUpTo, List.range_succ]

theorem mem_generationsUpTo {n : Nat} {g : Int} : g ∈ generationsUpTo n ↔ 1 ≤ g ∧ g ≤ n := by
  simp only [generationsUpTo, List.mem_map, List.mem_range]
  constructor
  · rintro ⟨i, hi, rfl⟩; omega
  · rintro ⟨h1, h2⟩; exact ⟨(g - 1).toNat, by omega, by omega⟩

/-- `tr` has launcher `t` start a pass at generation `g`, no other after it, when every
    generation up to `g` was registered. -/
def PassStarted (tr : List Event) (t : String) (g : Int) : Prop :=
  ∃ before after, tr = before ++ .passStarted t g :: after ∧ (∀ g', .passStarted t g' ∉ after) ∧
    ∃ n : Nat, registrations before = generationsUpTo n ∧ g ≤ n

/-- `tr` has a pass at generation `g` that started so and was finalised with success. -/
def PassSucceeded (tr : List Event) (g : Int) : Prop :=
  ∃ t pass after result, tr = pass ++ .finished t g true result :: after ∧ PassStarted pass t g

/-- `tr` has a pass that started after the registration of `g` and was finalised with success. -/
def Served (tr : List Event) (g : Int) : Prop :=
  ∃ before t p during result after,
    tr = before ++ .passStarted t p :: during ++ .finished t p true result :: after ∧
      (∀ p', .passStarted t p' ∉ during) ∧ g ∈ registrations before

theorem PassStarted.snoc {tr : List Event} {t : String} {g : Int} (h : PassStarted tr t g) {e : Event}
    (he : ∀ g', e ≠ .passStarted t g') : PassStarted (tr ++ [e]) t g := by
  obtain ⟨before, after, rfl, hno, hreg⟩ := h
  refine ⟨before, after ++ [e], by simp, fun g' hg' => ?_, hreg⟩
  rcases List.mem_append.mp hg' with hg' | hg'
  · exact hno g' hg'
  · exact he g' (List.mem_singleton.mp hg').symm

theorem PassSucceeded.snoc {tr : List Event} {g : Int} (h : PassSucceeded tr g) (e : Event) :
    PassSucceeded (tr ++ [e]) g := by
  obtain ⟨t, pass, after, result, rfl, hp⟩ := h
  exact ⟨t, pass, after ++ [e], result, by simp, hp⟩

/-! ## Passes in hand -/

def Event.startsNoPass (e : Event) : Prop := ∀ t g, e ≠ .passStarted t g

theorem ofRegistration_startsNoPass (t : String) (res : Except ReconcilerError RegisterReconciliationResult) :
    (Event.ofRegistration t res).startsNoPass := by
  intro t' g h
  cases res <;> cases h

theorem ofFinish_startsNoPass (t : String) (g : Int) (success : Bool)
    (res : Except ReconcilerError FinishReconciliationResult) : (Event.ofFinish t g success res).startsNoPass := by
  intro t' g' h
  cases res <;> cases h

/-- A step that turns launcher `l` into `l'` starts a pass, or keeps the one in hand. -/
def PassKept (l l' : Launcher) (e : Event) : Prop :=
  (e.startsNoPass ∧ ∀ g, l'.pc.passGeneration = some g → l.pc.passGeneration = some g) ∨
    ∃ g, e = .passStarted l.options.token g ∧ l.pc = .passStarting g ∧ l'.pc.passGeneration = some g

theorem launcherStep_pass {s s' : Sys} {l : Launcher} {e : Event} (hl : s.launchers l.options.token = some l)
    (h : LauncherStep s l e s') : ∃ l', s'.launchers = Function.update s.launchers l.options.token (some l') ∧
      PassKept l l' e := by
  have hother : Event.other.startsNoPass := fun _ _ h => by cases h
  have hlocal : ∀ pc : Pc, (∀ g, pc.passGeneration = some g → l.pc.passGeneration = some g) →
      ∃ l', (s.put (l.goto pc)).launchers = Function.update s.launchers l.options.token (some l') ∧
        PassKept l l' .other := fun pc h => ⟨_, rfl, .inl ⟨hother, h⟩⟩
  have hafter : ∀ (db : Db) (l' : Launcher) {e : Event}, l'.options = l.options → e.startsNoPass →
      (∀ g, l'.pc.passGeneration = some g → l.pc.passGeneration = some g) →
      ∃ l'', ({ s with db := db }.put l').launchers = Function.update s.launchers l.options.token (some l'') ∧
        PassKept l l'' e := fun db l' e ho he h => ⟨l', by rw [Sys.put, ho], .inl ⟨he, h⟩⟩
  have hsame : ∃ l', s.launchers = Function.update s.launchers l.options.token (some l') ∧ PassKept l l' .other :=
    ⟨l, (Function.update_eq_self_iff.mpr hl.symm).symm, .inl ⟨hother, fun _ => id⟩⟩
  cases h with
  | read attempt observed hpc | readFails attempt hpc | probe attempt observed pidAlive hpc
  | identify attempt observed pidAlive identity hpc | cleanupFails g hpc | priorTerminated g x hpc
  | priorThrows g x hpc | passThrows g hpc | handshakeFails g token hpc | cleanThrows g p registered hpc
  | passAborted g pass hpc => exact hlocal _ (fun g h => by cases h)
  | commitAttempt attempt observed pidAlive identity res db hpc =>
    refine hafter db _ ?_ (ofRegistration_startsNoPass _ res) ?_
    · unfold Launcher.afterAttempt; split <;> rfl
    · unfold Launcher.afterAttempt; split <;> first | exact (fun g h => by cases h) | (simp only [Launcher.goto]; split <;> exact (fun g h => by cases h))
  | recover g hpc =>
    refine hafter s.db _ ?_ hother ?_
    · unfold Launcher.afterRecovery Launcher.unlessAborted; split <;> (try split) <;> rfl
    · unfold Launcher.afterRecovery Launcher.unlessAborted Launcher.goto
      split <;> (try split) <;> (try split) <;> exact (fun g h => by cases h)
  | clearPrior g x res db hpc =>
    refine hafter db _ ?_ hother ?_
    · unfold Launcher.afterClearPrior; split <;> rfl
    · unfold Launcher.afterClearPrior Launcher.unlessAborted Launcher.goto; split <;> (try split) <;> exact (fun g h => by cases h)
  | prepared g hpc =>
    refine hafter s.db _ rfl hother ?_
    unfold Launcher.unlessAborted Launcher.goto; split <;> exact (fun g h => by cases h)
  | prepareFails g now res db hpc =>
    refine hafter db _ ?_ (ofFinish_startsNoPass _ _ _ res) ?_
    · unfold Launcher.afterFinish; split <;> rfl
    · unfold Launcher.afterFinish Launcher.goto; split <;> exact (fun g h => by cases h)
  | passStart g hpc =>
    exact ⟨_, rfl, .inr ⟨g, rfl, hpc, rfl⟩⟩
  | spawn g token k hpc | ready g token k hpc | abortPrepared g p hpc | abortRegistered g p hpc
  | abortThrows g p registered hpc | awaitReturns g p pass hpc | awaitThrows g p hpc =>
    refine ⟨_, rfl, .inl ⟨hother, fun g' hg' => ?_⟩⟩
    rw [hpc]
    exact hg'
  | sendStart g p k hpc | sendStartFails g p k left hpc =>
    refine ⟨_, rfl, .inl ⟨hother, fun g' hg' => ?_⟩⟩
    rw [hpc]
    exact hg'
  | abortTerminated g p registered hpc | cleaned g p registered hpc =>
    refine hlocal _ fun g' hg' => ?_
    rw [hpc]
    cases registered <;> first | exact hg' | cases hg'
  | register g p res db hpc =>
    refine hafter db _ ?_ hother fun g' hg' => ?_
    · unfold Launcher.afterRegister; split <;> rfl
    · rw [hpc]
      cases res <;> exact hg'
  | authorize g p res db hpc =>
    refine hafter db _ ?_ hother fun g' hg' => ?_
    · unfold Launcher.afterAuthorize; split <;> rfl
    · rw [hpc]
      rcases res with e | _ | _ <;> exact hg'
  | clear g p after res db hpc =>
    refine hafter db _ ?_ hother fun g' hg' => ?_
    · unfold Launcher.afterClear; split <;> split <;> rfl
    · rw [hpc]
      rcases res with e | _ | _ <;> cases after <;> first | exact hg' | cases hg'
  | finish g now pass res db hpc =>
    refine hafter db _ ?_ (ofFinish_startsNoPass _ _ _ res) ?_
    · unfold Launcher.afterFinish; split <;> rfl
    · unfold Launcher.afterFinish Launcher.goto; split <;> exact (fun g h => by cases h)
  | release res db hpc =>
    refine hafter db _ ?_ hother ?_
    · unfold Launcher.afterRelease; split <;> rfl
    · unfold Launcher.afterRelease Launcher.goto; split <;> exact (fun g h => by cases h)
  | heartbeat => exact hsame
  | cancel | kill => exact hafter s.db _ rfl hother fun _ => id
  | fatal res db => exact hafter db _ rfl hother fun _ => id

/-- A pass is finalised with success by the launcher that has it in hand. -/
theorem finished_pass {s s' : Sys} {l : Launcher} {t : String} {g : Int} {r : FinishReconciliationResult}
    (h : LauncherStep s l (.finished t g true r) s') : l.pc.passGeneration = some g := by
  generalize he : Event.finished t g true r = e at h
  cases h with
  | finish g' now pass res db hpc =>
    cases res with
    | error e => cases he
    | ok r' =>
      simp only [Event.ofFinish, Event.finished.injEq] at he
      rw [hpc, he.2.1]
      rfl
  | prepareFails g' now res db => cases res <;> cases he
  | commitAttempt attempt observed pidAlive identity res db => cases res <;> cases he
  | _ => cases he

/-- The passes in hand after a step, by any process. -/
theorem step_pass {s s' : Sys} {c : Coordinator} {e : Event} (hi : Inv s c) (h : Step s e s') {t : String}
    {l' : Launcher} {g : Int} (hl' : s'.launchers t = some l') (hg : l'.pc.passGeneration = some g) :
    ∃ l, s.launchers t = some l ∧ (l'.alive = true → l.alive = true) ∧
      ((l.pc.passGeneration = some g ∧ ∀ g', e ≠ .passStarted t g') ∨
        (l.pc = .passStarting g ∧ e = .passStarted t g)) := by
  cases h with
  | enter l hnew hfresh hpc =>
    simp only [Sys.put, Function.update_apply] at hl'
    split at hl'
    · cases hl'; rw [hpc] at hg; cases hg
    · exact ⟨l', hl', id, .inl ⟨hg, fun _ h => by cases h⟩⟩
  | controller k hk hstep =>
    have hkeep : s'.launchers = s.launchers := by cases hstep <;> rfl
    exact ⟨l', hkeep ▸ hl', id, .inl ⟨hg, fun _ h => by cases h⟩⟩
  | @launcher _ _ t₀ l hl ha hstep =>
    have ht₀ : l.options.token = t₀ := hi.keyed _ _ hl
    subst ht₀
    obtain ⟨l₁, hupd, hkept⟩ := launcherStep_pass hl hstep
    rw [hupd, Function.update_apply] at hl'
    split at hl'
    · rename_i ht
      subst ht
      cases hl'
      refine ⟨l, hl, fun _ => ha, ?_⟩
      rcases hkept with ⟨he, hkeep⟩ | ⟨g₁, he, hpc, hg₁⟩
      · exact .inl ⟨hkeep g hg, fun g' => he _ g'⟩
      · rw [hg] at hg₁
        cases hg₁
        exact .inr ⟨hpc, he⟩
    · rename_i hne
      refine ⟨l', hl', id, .inl ⟨hg, fun g' heq => ?_⟩⟩
      rcases hkept with ⟨he, -⟩ | ⟨g₁, he, -⟩
      · exact he _ _ heq
      · rw [he] at heq
        cases heq
        exact hne rfl

/-! ## The history of every run -/

structure History (tr : List Event) (s : Sys) (c : Coordinator) : Prop where
  registered : registrations tr = generationsUpTo c.requested.toNat
  inHand : ∀ t l g, s.launchers t = some l → l.alive = true → l.pc.passGeneration = some g → PassStarted tr t g
  completed : c.completed = 0 ∨ PassSucceeded tr c.completed

/-- The completed generation moves only when a pass is finalised with success, to that
    pass's generation. -/
theorem Change.completed {s : Sys} {l : Launcher} {c c' : Coordinator} {e : Event} (hc : c.WF) (h : Change s l c e c') :
    c'.completed = c.completed ∨
      ∃ g r, e = .finished l.options.token g true r ∧ c'.completed = g ∧ c.completed < g := by
  have hfinish : ∀ (o : Owner) (g now : Int) (success : Bool) (r : FinishReconciliationResult), c.owner = some o →
      o.running = g → c.completedAfter (l.finishOptions g success now) = c.completed ∨
        ∃ g' r', Event.finished l.options.token g success r = .finished l.options.token g' true r' ∧
          c.completedAfter (l.finishOptions g success now) = g' ∧ c.completed < g' := by
    rintro o g now (_ | _) r ho hrun
    · exact .inl rfl
    · exact .inr ⟨g, r, rfl, rfl, hrun ▸ (hc.ownerOk o ho).2.1⟩
  cases h with
  | keep | coalesce | acquire | beat | release | registerExecution | authorize | clearExecution => exact .inl rfl
  | continuePass o g now success ho hx hrun => exact hfinish o g now success _ ho.1 hrun
  | stop o g now success ho hx hrun => exact hfinish o g now success _ ho.1 hrun

theorem Change.registered {s : Sys} {l : Launcher} {c c' : Coordinator} {e : Event} (h : Change s l c e c') :
    (e.registration = none ∧ c'.requested = c.requested) ∨
      (e.registration = some (c.requested + 1) ∧ c'.requested = c.requested + 1) := by
  cases h with
  | keep he =>
    refine .inl ⟨?_, rfl⟩
    cases e <;> first | rfl | cases he
  | coalesce | acquire => exact .inr ⟨rfl, rfl⟩
  | _ => exact .inl ⟨rfl, rfl⟩

theorem history_step {tr : List Event} {s s' : Sys} {c : Coordinator} {e : Event} (hi : Inv s c)
    (hh : History tr s c) (h : Step s e s') : ∃ c', Inv s' c' ∧ History (tr ++ [e]) s' c' := by
  have hreq : 0 ≤ c.requested := by have := hi.wf.completedNonneg; have := hi.wf.completedLe; omega
  have hhand : ∀ t l' g, s'.launchers t = some l' → l'.alive = true → l'.pc.passGeneration = some g →
      PassStarted (tr ++ [e]) t g := by
    intro t l' g hl' ha' hg
    obtain ⟨l, hl, ha, ⟨hpg, he⟩ | ⟨hpc, rfl⟩⟩ := step_pass hi h hl' hg
    · exact (hh.inHand t l g hl (ha ha') hpg).snoc he
    · -- the owner runs the generation it starts, which is registered
      have hok := hi.launcher t l hl (ha ha')
      obtain ⟨o, ho, -, -, -, hrun⟩ := hok.owns (hok.owning (by rw [hpc]; rfl))
      have hle := (hi.wf.ownerOk o ho).2.2
      rw [hrun g (by rw [hpc]; rfl)] at hle
      exact ⟨tr, [], rfl, (fun _ h => by cases h), _, hh.registered, by omega⟩
  rcases step_cases hi h with ⟨rfl, hi'⟩ | ⟨l, hl, ha, hstep, c', hch, hi'⟩
  · refine ⟨c, hi', ?_, hhand, hh.completed.imp id (·.snoc _)⟩
    rw [registrations_snoc, hh.registered]
    exact List.append_nil _
  · refine ⟨c', hi', ?_, hhand, ?_⟩
    · rw [registrations_snoc, hh.registered]
      rcases hch.registered with ⟨he, hr⟩ | ⟨he, hr⟩
      · rw [he, hr]
        exact List.append_nil _
      · rw [he, hr, show (c.requested + 1).toNat = c.requested.toNat + 1 by omega, generationsUpTo_succ]
        simp only [Int.toNat_of_nonneg hreq, Option.toList]
    · rcases hch.completed hi.wf with hsame | ⟨g, r, rfl, hg, -⟩
      · rw [hsame]
        exact hh.completed.imp id (·.snoc _)
      · have hpass := hh.inHand _ l g hl ha (finished_pass hstep)
        exact .inr ⟨l.options.token, tr, [], r, by rw [hg], by rw [hg]; exact hpass⟩

theorem history_run {tr : List Event} {s : Sys} (h : Run launcherMachine tr s) : ∃ c, Inv s c ∧ History tr s c := by
  refine h.traceInvariant (P := fun tr s => ∃ c, Inv s c ∧ History tr s c) (fun s hs => ?_)
    fun tr s e s' _ ⟨c, hi, hh⟩ hstep => history_step hi hh hstep
  subst hs
  exact ⟨.initial, inv_init, rfl, (fun _ _ _ h => by cases h), .inl rfl⟩

theorem PassSucceeded.served {tr : List Event} {p g : Int} (h : PassSucceeded tr p) (h1 : 1 ≤ g) (hle : g ≤ p) :
    Served tr g := by
  obtain ⟨t, pass, after, result, rfl, before, during, rfl, hno, n, hreg, hp⟩ := h
  refine ⟨before, t, p, during, result, after, by simp, hno, ?_⟩
  rw [hreg, mem_generationsUpTo]
  omega

/-- Only a pass that leaves nothing requested beyond its generation stops with success. -/
theorem Change.stopSuccess {s : Sys} {l : Launcher} {c c' : Coordinator} {e : Event} (hc : c.WF) (h : Change s l c e c')
    {t : String} {g completed : Int} {success : Bool} (he : e = .finished t g success (.stopSuccess completed)) :
    completed = c'.completed ∧ c'.completed = c'.requested := by
  cases h with
  | keep hq => subst he; cases hq
  | stop o g' now success' ho hx hrun hge =>
    obtain ⟨-, -, hle⟩ := hc.ownerOk o ho.1
    cases success' with
    | false => cases he
    | true =>
      cases he
      exact ⟨rfl, by simp only [Coordinator.stop, Coordinator.completedAfter, Launcher.finishOptions, if_true]; omega⟩
  | _ => cases he

/-- No wakeup is lost by coalescing. -/
theorem no_lost_wakeup {tr : List Event} {s : Sys} (h : Run launcherMachine tr s) :
    ∃ state, readReconcilerState s.db = .ok state ∧
      registrations tr = generationsUpTo state.requestedGeneration.toNat ∧
      (∀ g ∈ registrations tr, g ≤ state.completedGeneration → Served tr g) ∧
      ∀ e s', Step s e s' → ∃ state', readReconcilerState s'.db = .ok state' ∧
        (state'.completedGeneration = state.completedGeneration ∨
          (state.completedGeneration < state'.completedGeneration ∧
            ∃ t r, e = .finished t state'.completedGeneration true r)) ∧
        ∀ t g success completed, e = .finished t g success (.stopSuccess completed) →
          completed = state'.completedGeneration ∧ state'.completedGeneration = state'.requestedGeneration := by
  obtain ⟨c, hi, hh⟩ := history_run h
  have hread : ∀ {s c}, Inv s c → readReconcilerState s.db = .ok c.record := fun hi => by
    rw [hi.db]; exact Coordinator.read_toRow hi.wf
  refine ⟨c.record, hread hi, hh.registered, fun g hg hle => ?_, fun e s' hstep => ?_⟩
  · rw [hh.registered, mem_generationsUpTo] at hg
    have hle : g ≤ c.completed := hle
    rcases hh.completed with h0 | hp
    · omega
    · exact hp.served hg.1 hle
  · rcases step_cases hi hstep with ⟨rfl, hi'⟩ | ⟨l, -, -, -, c', hch, hi'⟩
    · exact ⟨c.record, hread hi', .inl rfl, fun _ _ _ _ h => by cases h⟩
    · refine ⟨c'.record, hread hi', ?_, fun t g success completed he => hch.stopSuccess hi.wf he⟩
      rcases hch.completed hi.wf with hsame | ⟨g, r, rfl, rfl, hlt⟩
      · exact .inl hsame
      · exact .inr ⟨hlt, _, r, rfl⟩

/-- The labels of the sample pass, up to its successful end. -/
def sampleTrace : List Event :=
  [.other, .other, .other, .other, .registered "owner-a" (.owner 1 0 false none false), .other, .other,
    .passStarted "owner-a" 1, .other, .other, .other, .other, .other, .other, .other, .other, .other,
    .finished "owner-a" 1 true (.stopSuccess 1)]

def sampleCompleted : Coordinator := ⟨1, 1, none, none⟩

theorem sample_finished : Run launcherMachine sampleTrace
    (sampleSys sampleCompleted .ended false (some ⟨200, "birth-200", false, false, true, true⟩)) := by
  have hk : (sampleSys (sampleRecorded .startAuthorized) (.awaiting 1 samplePrepared) true
      (some (sampleController true true true))).controllers "execution-a" = some (sampleController true true true) := rfl
  have h1 := sample_started.snoc (.controller _ hk .groupDies)
  rw [sampleSys_putController] at h1
  have hgone : (sampleSys (sampleRecorded .startAuthorized) (.awaiting 1 samplePrepared) true
      (some ⟨200, "birth-200", false, false, true, true⟩)).GroupGone 200 "birth-200" := by
    intro t k hk _ _
    simp only [sampleSys] at hk
    split at hk <;> cases hk
    rfl
  have h2 := sample_step h1 (sampleRecorded .startAuthorized) (.clearing 1 samplePrepared (.returns ⟨some 0, none, none, none⟩))
    true (.awaitReturns 1 samplePrepared ⟨some 0, none, none, none⟩ rfl hgone)
  have h3 := sample_step h2 sampleOwned (.passReturned 1 ⟨some 0, none, none, none⟩) true
    (.clear 1 samplePrepared (.returns ⟨some 0, none, none, none⟩) (.ok true) [sampleOwned.toRow] rfl (by decide))
  exact sample_step h3 sampleCompleted .ended false
    (.finish 1 7 ⟨some 0, none, none, none⟩ (.ok (.stopSuccess 1)) [sampleCompleted.toRow] rfl rfl (by decide)
      (by decide))

theorem no_lost_wakeup_finished : ∃ state, readReconcilerState [sampleCompleted.toRow] = .ok state ∧
    (∀ g ∈ registrations sampleTrace, g ≤ state.completedGeneration → Served sampleTrace g) := by
  obtain ⟨state, hread, -, hserved, -⟩ := no_lost_wakeup sample_finished
  exact ⟨state, hread, hserved⟩

end GitCommitsPush.Reconciliation
