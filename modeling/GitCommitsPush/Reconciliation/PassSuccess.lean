/-
  GitCommitsPush.Reconciliation.PassSuccess — a generation is completed by a real success
  (`supervisor-pass.ts`, `owned-reconciliation-loop.ts`).

  `PassInvariant` ties the ghost log to the controller: what has happened is in it, in order,
  and every report that reaches the launcher is of an end that was seen.
-/

import GitCommitsPush.Reconciliation.SupervisorPass

namespace GitCommitsPush.Reconciliation

open GitCommitsPush.Lib.Runs

/-! ## The invariant -/

def startMilestones : List PassEntry := [.startSent, .startDelivered]

/-- What comes before the end of a supervisor, and that end. -/
def exitMilestones (exit : ProcessExit) : List PassEntry := startMilestones ++ [.spawned, .exited exit]

/-- STARTs in flight, START handlers at their barrier, and supervisors. -/
def Pass.tickets (s : Pass) : Nat :=
  s.inbound.countP (·.isStart) + s.controller.starting + s.controller.spawned.length

structure PassInvariant (s : Pass) : Prop where
  truthful : Truthful (s.phase.awaits = true) s.controller
  result : ∀ observation, s.result = some observation → Reports s.controller.spawned observation
  outbound : ∀ token observation, .result token observation ∈ s.outbound → Reports s.controller.spawned observation
  closed : ∀ exit, s.closed = some exit → s.controller.exit = some exit
  oneStart : s.tickets ≤ if s.started then 1 else 0
  sent : s.started = true → List.Sublist [.startSent] s.log
  starting : 0 < s.controller.starting → List.Sublist startMilestones s.log
  spawned : s.controller.spawned ≠ [] → List.Sublist (startMilestones ++ [.spawned]) s.log
  ended : ∀ supervisor ∈ s.controller.spawned, ∀ exit, supervisor.closed = some exit →
    List.Sublist (exitMilestones exit) s.log
  clearing : ∀ pass, s.phase = .clearing pass → passSucceeded pass = true →
    RanToSuccess s.controller.spawned ∧ List.Sublist (exitMilestones (.code 0) ++ [.groupAbsent s.controllerPid]) s.log
  returned : ∀ pass, s.phase = .returned pass → passSucceeded pass = true →
    RanToSuccess s.controller.spawned ∧ ∃ db, ¬Carries s.executionToken db ∧
      List.Sublist (exitMilestones (.code 0) ++ [.groupAbsent s.controllerPid, .cleared db]) s.log
  group : ∀ prepared, s.prepared = some prepared → prepared.groupId = s.controllerPid

/-- The launcher neither waits nor holds the result of a success. -/
structure PassPhase.Quiet (phase : PassPhase) : Prop where
  awaits : phase.awaits = false
  clearing : ∀ pass, phase = .clearing pass → passSucceeded pass = false
  returned : ∀ pass, phase = .returned pass → passSucceeded pass = false

theorem cancelledPass_failed : passSucceeded cancelledPass = false := rfl

theorem Truthful.mono {awaited awaited' : Prop} {s : ControllerState} (h : Truthful awaited s) (himp : awaited' → awaited) :
    Truthful awaited' s :=
  ⟨h.observation, h.outbox, h.sending, fun hawaited => h.exit (himp hawaited)⟩

theorem sublist_snoc {α : Type} {l m : List α} (h : l.Sublist m) (more : List α) : l.Sublist (m ++ more) :=
  h.trans (List.sublist_append_left m more)

theorem sublist_concat {α : Type} {l m : List α} (h : l.Sublist m) (a : α) : (l ++ [a]).Sublist (m ++ [a]) :=
  h.append (List.Sublist.refl [a])

section Steps

variable {s : Pass}

/-- A step of the launcher that only changes where it is, and perhaps the table. -/
theorem PassInvariant.quiet (h : PassInvariant s) {phase : PassPhase} (hquiet : phase.Quiet) (db : Db) :
    PassInvariant { s with db := db, phase := phase } :=
  ⟨h.truthful.mono fun hawaits => (by rw [hquiet.awaits] at hawaits; cases hawaits), h.result, h.outbound, h.closed,
    h.oneStart, h.sent, h.starting, h.spawned, h.ended,
    fun pass hphase hsuccess => (by rw [hquiet.clearing pass hphase] at hsuccess; cases hsuccess),
    fun pass hphase hsuccess => (by rw [hquiet.returned pass hphase] at hsuccess; cases hsuccess), h.group⟩

/-- From one point of the wait to another. -/
theorem PassInvariant.waits (h : PassInvariant s) {phase : PassPhase} (hawaits : s.phase.awaits = true)
    (hphase : phase.awaits = true) : PassInvariant (s.goto phase) := by
  refine ⟨h.truthful.mono fun _ => hawaits, h.result, h.outbound, h.closed, h.oneStart, h.sent, h.starting, h.spawned,
    h.ended, fun pass hclearing => ?_, fun pass hreturned => ?_, h.group⟩
  · have hphase' : phase = .clearing pass := hclearing
    rw [hphase'] at hphase
    cases hphase
  · have hphase' : phase = .returned pass := hreturned
    rw [hphase'] at hphase
    cases hphase

/-- The log grows, and nothing it speaks of changes. -/
theorem PassInvariant.log (h : PassInvariant s) (more : List PassEntry) : PassInvariant { s with log := s.log ++ more } :=
  ⟨h.truthful, h.result, h.outbound, h.closed, h.oneStart, fun hs => sublist_snoc (h.sent hs) more,
    fun hs => sublist_snoc (h.starting hs) more, fun hs => sublist_snoc (h.spawned hs) more,
    fun supervisor hmem exit hclosed => sublist_snoc (h.ended supervisor hmem exit hclosed) more,
    fun pass hphase hsuccess => (h.clearing pass hphase hsuccess).imp_right fun hlog => sublist_snoc hlog more,
    fun pass hphase hsuccess => (h.returned pass hphase hsuccess).imp_right
      fun ⟨db, hdb, hlog⟩ => ⟨db, hdb, sublist_snoc hlog more⟩, h.group⟩

/-- A START handler or a supervisor more takes a START delivered. -/
theorem turn_starting {ownPid : Int} {before after : ControllerState} {e : ControllerEvent}
    (hturn : ControllerTurn ownPid before e after) :
    after.starting + after.spawned.length ≤ before.starting + before.spawned.length ∨
      (∃ token, e.launcherMessage = some (.start token)) ∧
        after.starting + after.spawned.length = before.starting + before.spawned.length + 1 := by
  cases turn_effect hturn with
  | quiet _ _ hspawned hstarting _ => left; omega
  | prepared _ _ _ _ _ hspawned hstarting => left; omega
  | started token hmessage _ _ _ _ hspawned hstarting => exact .inr ⟨⟨token, hmessage⟩, by omega⟩
  | spawns _ _ _ _ _ _ hspawned hstarting => left; omega

theorem mem_modify {α : Type} {l : List α} {i : Nat} {f : α → α} {a : α} (h : a ∈ l.modify i f) :
    a ∈ l ∨ ∃ b, l[i]? = some b ∧ a = f b := by
  obtain ⟨j, hj, hget⟩ := List.mem_iff_getElem.mp h
  rw [List.getElem_modify] at hget
  have hlength : j < l.length := by rwa [List.length_modify] at hj
  split at hget
  · rename_i hij
    cases hij
    exact .inr ⟨l[i], List.getElem?_eq_getElem hlength, hget.symm⟩
  · exact .inl (hget ▸ List.getElem_mem hlength)

theorem modify_ne_nil {α : Type} {l : List α} {i : Nat} {f : α → α} (h : l.modify i f ≠ []) : l ≠ [] := by
  intro hnil
  rw [hnil] at h
  exact h (List.modify_nil ..)

section Turn

variable {rest : List LauncherExecutionMessage} {e : ControllerEvent} {c : ControllerState}

/-- The log after a turn: the milestones of its START handlers. -/
theorem turn_startMilestones (h : PassInvariant s)
    (hstart : ∀ token, e.launcherMessage = some (.start token) → 0 < s.inbound.countP (·.isStart))
    (hturn : ControllerTurn s.controllerPid s.controller e c) (hstarting : 0 < c.starting) :
    List.Sublist startMilestones (s.turn e c).log := by
  show List.Sublist startMilestones (s.log ++ Pass.turnEntries s.controller e c)
  cases turn_effect hturn with
  | quiet _ _ _ hle _ => exact sublist_snoc (h.starting (by omega)) _
  | prepared _ _ _ _ _ _ hle => exact sublist_snoc (h.starting (by omega)) _
  | spawns _ hpos _ _ _ _ _ _ => exact sublist_snoc (h.starting hpos) _
  | started token hmessage _ _ _ _ _ _ =>
    have hsent : s.started = true := by
      have hpos := hstart token hmessage
      have hone := h.oneStart
      unfold Pass.tickets at hone
      by_cases hstarted : s.started = true
      · exact hstarted
      · rw [if_neg hstarted] at hone
        omega
    have hentries : Pass.turnEntries s.controller e c = [.startDelivered] := by
      cases e with
      | message rawMessage processIdentity groupId members =>
        unfold Pass.turnEntries
        rw [hmessage]
      | _ => cases hmessage
    rw [hentries]
    exact sublist_concat (h.sent hsent) _

theorem turn_spawned (h : PassInvariant s) (hturn : ControllerTurn s.controllerPid s.controller e c) (hne : c.spawned ≠ []) :
    List.Sublist (startMilestones ++ [.spawned]) (s.turn e c).log := by
  show List.Sublist _ (s.log ++ Pass.turnEntries s.controller e c)
  cases turn_children hturn with
  | same hsame => exact sublist_snoc (h.spawned (hsame ▸ hne)) _
  | spawns index pid members he hpos happend =>
    have hentries : Pass.turnEntries s.controller e c = [.spawned] := by
      subst he
      have hlength : s.controller.spawned.length < c.spawned.length := by
        rw [happend, List.length_append]
        exact Nat.lt_succ_self _
      exact if_pos hlength
    rw [hentries]
    exact sublist_concat (h.starting hpos) _
  | fails child message _ hmodify =>
    rw [hmodify] at hne
    exact sublist_snoc (h.spawned (modify_ne_nil hne)) _
  | ends child supervisor exit members _ _ _ _ hmodify =>
    rw [hmodify] at hne
    exact sublist_snoc (h.spawned (modify_ne_nil hne)) _

theorem turn_ended (h : PassInvariant s) (hturn : ControllerTurn s.controllerPid s.controller e c) {supervisor : Supervisor}
    (hmem : supervisor ∈ c.spawned) {exit : ProcessExit} (hclosed : supervisor.closed = some exit) :
    List.Sublist (exitMilestones exit) (s.turn e c).log := by
  show List.Sublist _ (s.log ++ Pass.turnEntries s.controller e c)
  cases turn_children hturn with
  | same hsame => exact sublist_snoc (h.ended supervisor (hsame ▸ hmem) exit hclosed) _
  | spawns index pid members _ _ happend =>
    rw [happend] at hmem
    rcases List.mem_append.mp hmem with hmem | hmem
    · exact sublist_snoc (h.ended supervisor hmem exit hclosed) _
    · cases List.mem_singleton.mp hmem
      cases hclosed
  | fails child message _ hmodify =>
    rw [hmodify] at hmem
    rcases mem_modify hmem with hmem | ⟨old, hget, rfl⟩
    · exact sublist_snoc (h.ended supervisor hmem exit hclosed) _
    · exact sublist_snoc (h.ended old (List.mem_of_getElem? hget) exit hclosed) _
  | ends child old exit' members he hget _ _ hmodify =>
    rw [hmodify] at hmem
    rcases mem_modify hmem with hmem | ⟨other, hother, rfl⟩
    · exact sublist_snoc (h.ended supervisor hmem exit hclosed) _
    · -- the child that ends now
      cases hclosed
      have hspawned : s.controller.spawned ≠ [] := List.ne_nil_of_mem (List.mem_of_getElem? hget)
      subst he
      have hlog := sublist_concat (h.spawned hspawned) (PassEntry.exited exit)
      rwa [List.append_assoc] at hlog

/-- A controller's turn, with what is left of the channel. -/
theorem PassInvariant.turn (h : PassInvariant s) (hexit : s.controller.exit = none)
    (hrest : rest.countP (·.isStart) ≤ s.inbound.countP (·.isStart))
    (hstart : ∀ token, e.launcherMessage = some (.start token) →
      rest.countP (·.isStart) + 1 ≤ s.inbound.countP (·.isStart))
    (hturn : ControllerTurn s.controllerPid s.controller e c)
    (hreported : s.phase.awaits = true → ¬LeavesUnreported s.controller e) :
    PassInvariant ({ s with inbound := rest }.turn e c) := by
  have hkeeps := (turn_children hturn).keeps
  have hmilestones : 0 < c.starting → List.Sublist startMilestones (s.turn e c).log := by
    refine turn_startMilestones h (fun token htoken => ?_) hturn
    have := hstart token htoken
    omega
  refine ⟨turn_truthful h.truthful hturn hreported, fun o ho => (h.result o ho).mono hkeeps,
    fun t o ho => (h.outbound t o ho).mono hkeeps, fun exit hclosed => ?_, ?_, fun hs => sublist_snoc (h.sent hs) _,
    hmilestones, turn_spawned (s := s) h hturn,
    fun supervisor hmem exit hclosed => turn_ended h hturn hmem hclosed, fun pass hphase hsuccess => ?_,
    fun pass hphase hsuccess => ?_, h.group⟩
  · rw [h.closed exit hclosed] at hexit
    cases hexit
  · have hone := h.oneStart
    show rest.countP (·.isStart) + c.starting + c.spawned.length ≤ if s.started then 1 else 0
    unfold Pass.tickets at hone
    rcases turn_starting hturn with hle | ⟨⟨token, hmessage⟩, heq⟩
    · omega
    · have hdelivered := hstart token hmessage
      omega
  · have hclearing := h.clearing pass hphase hsuccess
    exact ⟨hclearing.1.mono hkeeps, sublist_snoc hclearing.2 _⟩
  · obtain ⟨hran, db, hdb, hlog⟩ := h.returned pass hphase hsuccess
    exact ⟨hran.mono hkeeps, db, hdb, sublist_snoc hlog _⟩

end Turn

/-! ### The launcher's steps -/

/-- A success that `start` returns is a supervisor's. -/
theorem passResult_success (h : PassInvariant s) (hawaits : s.phase.awaits = true) {closed : ProcessExit}
    (hclosed : s.closed = some closed) (hsuccess : passSucceeded (s.passResult closed) = true) :
    RanToSuccess s.controller.spawned := by
  simp only [passSucceeded, Bool.and_eq_true, beq_iff_eq] at hsuccess
  have hcode : Pass.orElse (s.result.map (·.exitCode)) closed.exitCode = some 0 := hsuccess.2
  -- the exit code is RESULT's, or the controller's own
  have hfrom : (∃ observation, s.result = some observation ∧ observation.exitCode = some 0) ∨ closed.exitCode = some 0 := by
    cases hresult : s.result with
    | none =>
      rw [hresult] at hcode
      exact .inr hcode
    | some observation =>
      rw [hresult] at hcode
      cases hreported : observation.exitCode with
      | none =>
        simp only [Pass.orElse, Option.map_some, hreported, Option.bind_some, id, Option.none_or] at hcode
        exact .inr hcode
      | some code =>
        simp only [Pass.orElse, Option.map_some, hreported, Option.bind_some, id, Option.some_or] at hcode
        exact .inl ⟨observation, rfl, hreported.trans hcode⟩
  rcases hfrom with ⟨observation, hresult, hzero⟩ | hzero
  · exact ((h.result observation hresult).success hzero (by decide)).1
  · cases closed with
    | killed signal => cases hzero
    | code exitCode =>
      cases hzero
      exact h.truthful.exit hawaits (h.closed _ hclosed)

theorem PassInvariant.afterGroupCheck (h : PassInvariant s) (hphase : s.phase = .awaiting ∨ s.phase = .closing)
    {prepared : PreparedSupervisorPass} (hprepared : s.prepared = some prepared) {closed : ProcessExit}
    (hclosed : s.closed = some closed) (groupExists : Bool) :
    PassInvariant (s.afterGroupCheck prepared.groupId closed groupExists) := by
  have hawaits : s.phase.awaits = true := by
    rcases hphase with hphase | hphase <;> rw [hphase] <;> rfl
  cases groupExists with
  | true => exact h.quiet ⟨rfl, fun _ h => (by cases h), fun _ h => (by cases h)⟩ s.db
  | false =>
    rw [h.group prepared hprepared]
    have hlog := h.log [.groupAbsent s.controllerPid]
    refine ⟨h.truthful.mono fun h => (by cases h), h.result, h.outbound, h.closed, h.oneStart, hlog.sent, hlog.starting,
      hlog.spawned, hlog.ended, fun pass hclearing hsuccess => ?_, fun pass hreturned => (by cases hreturned), h.group⟩
    cases hclearing
    have hran := passResult_success h hawaits hclosed hsuccess
    obtain ⟨supervisor, hmem, _, hexited⟩ := hran
    exact ⟨⟨supervisor, hmem, by assumption, hexited⟩, sublist_concat (h.ended supervisor hmem _ hexited) _⟩

theorem PassInvariant.afterClear (h : PassInvariant s) {pass : SupervisorPassResult} (hphase : s.phase = .clearing pass)
    {res : Except ReconcilerError Bool} {db : Db} {ownerToken : String} {ownerPid : Int}
    (hclear : clearActiveExecution s.db (s.fence ownerToken ownerPid) = (res, db)) :
    PassInvariant ({ s with db := db }.afterClear pass res) := by
  have hfails : PassInvariant { s with db := db, phase := .cleaning true } :=
    h.quiet ⟨rfl, fun _ h => (by cases h), fun _ h => (by cases h)⟩ db
  cases res with
  | error e => exact hfails
  | ok answer =>
    cases answer with
    | false => exact hfails
    | true =>
      have hlog := h.log [.cleared db]
      refine ⟨h.truthful.mono fun h => (by cases h), h.result, h.outbound, h.closed, h.oneStart, hlog.sent, hlog.starting,
        hlog.spawned, hlog.ended, fun pass hclearing => (by cases hclearing), fun returned hreturned hsuccess => ?_, h.group⟩
      cases hreturned
      obtain ⟨hran, hmilestones⟩ := h.clearing pass hphase hsuccess
      refine ⟨hran, db, clear_not_carries hclear, ?_⟩
      have hall := sublist_concat hmilestones (PassEntry.cleared db)
      rwa [List.append_assoc] at hall

theorem PassInvariant.observe (h : PassInvariant s) {message : ControllerExecutionMessage}
    (hmessage : ∀ token observation, message = .result token observation → Reports s.controller.spawned observation) :
    PassInvariant (s.observe message) := by
  cases message with
  | ready token pid processIdentity groupId => exact h
  | started token supervisorPid =>
    unfold Pass.observe
    dsimp only
    split
    · exact ⟨h.truthful, h.result, h.outbound, h.closed, h.oneStart, h.sent, h.starting, h.spawned, h.ended, h.clearing,
        h.returned, h.group⟩
    · exact h
  | result token observation =>
    unfold Pass.observe
    dsimp only
    split
    · refine ⟨h.truthful, fun o ho => ?_, h.outbound, h.closed, h.oneStart, h.sent, h.starting, h.spawned, h.ended,
        h.clearing, h.returned, h.group⟩
      cases ho
      exact hmessage token observation rfl
    · exact h

/-- READY, which named the controller's own group. -/
theorem PassInvariant.ready (h : PassInvariant s) {prepared : PreparedSupervisorPass}
    (hgroup : prepared.groupId = s.controllerPid) :
    PassInvariant { s with phase := .registering prepared, prepared := some prepared } := by
  have hnext := @PassInvariant.quiet s h (.registering prepared) ⟨rfl, fun _ h => (by cases h), fun _ h => (by cases h)⟩ s.db
  refine ⟨hnext.truthful, h.result, h.outbound, h.closed, h.oneStart, h.sent, h.starting, h.spawned, h.ended, hnext.clearing,
    hnext.returned, fun found hfound => ?_⟩
  cases hfound
  exact hgroup

theorem PassInvariant.onMessage (h : PassInvariant s) {message : ControllerExecutionMessage}
    (hmessage : ∀ token observation, message = .result token observation → Reports s.controller.spawned observation)
    (processIdentity : Option String) (groupId : Option Int) :
    PassInvariant (s.onMessage message processIdentity groupId) := by
  have hquiet : ∀ phase : PassPhase, phase.Quiet → PassInvariant (s.goto phase) := fun phase hphase => h.quiet hphase s.db
  unfold Pass.onMessage
  split
  · exact h
  · rename_i read hread
    have hread : ∀ token observation, read = .result token observation → Reports s.controller.spawned observation := by
      rintro token observation rfl
      obtain ⟨written, rfl⟩ := result_of_parse hread
      exact hmessage written observation rfl
    split
    · unfold Pass.afterReady
      split
      · split
        · rename_i hready
          exact h.ready hready.2.2.1
        · exact hquiet _ ⟨rfl, fun _ h => (by cases h), fun _ h => (by cases h)⟩
      · exact h
    · exact h.observe hread
    · exact h.observe hread
    · exact h.observe hread
    · exact h

theorem passInvariant_fresh (executionToken : String) (generation controllerPid : Int) (aborted : Bool) (db : Db) :
    PassInvariant (Pass.fresh executionToken generation controllerPid aborted db) where
  truthful := ⟨fun _ h => (by cases h), fun _ _ h => (by cases h), fun _ h => (by cases h), fun _ h => (by cases h)⟩
  result _ h := by cases h
  outbound _ _ h := by cases h
  closed _ h := by cases h
  oneStart := Nat.zero_le _
  sent h := by cases h
  starting h := absurd h (Nat.lt_irrefl 0)
  spawned h := absurd rfl h
  ended _ h := by cases h
  clearing _ h := by cases h
  returned _ h := by cases h
  group _ h := by cases h

/-- START into the channel, from a pass that had not started. -/
theorem PassInvariant.start (h : PassInvariant s) (hstarted : s.started = false) {phase : PassPhase}
    (htruthful : Truthful (phase.awaits = true) s.controller) (hclearing : ∀ pass, phase ≠ .clearing pass)
    (hreturned : ∀ pass, phase ≠ .returned pass) {more : List LauncherExecutionMessage} (hmore : more.length ≤ 1) :
    PassInvariant { s with
      phase := phase
      started := true
      inbound := s.inbound ++ more
      log := s.log ++ [.startSent] } := by
  have hlog := h.log [.startSent]
  refine ⟨htruthful, h.result, h.outbound, h.closed, ?_, fun _ => List.sublist_append_right _ _, hlog.starting,
    hlog.spawned, hlog.ended, fun pass hphase => absurd hphase (hclearing pass), fun pass hphase => absurd hphase (hreturned pass),
    h.group⟩
  have hone := h.oneStart
  have hcount : more.countP (·.isStart) ≤ more.length := List.countP_le_length
  show (s.inbound ++ more).countP (·.isStart) + s.controller.starting + s.controller.spawned.length ≤ 1
  unfold Pass.tickets at hone
  rw [hstarted] at hone
  rw [List.countP_append]
  simp only [Bool.false_eq_true, if_false] at hone
  omega

variable {ownerToken : String} {ownerPid : Int} {t : Pass} {l : PassLabel}

theorem passInvariant_step (h : PassInvariant s) (hstep : PassStep ownerToken ownerPid s l t) (hreported : Reported s l) :
    PassInvariant t := by
  have hquiet : ∀ phase : PassPhase, phase.Quiet → PassInvariant (s.goto phase) := fun phase hphase => h.quiet hphase s.db
  cases hstep with
  | controller e c hinside hexit hturn =>
    refine h.turn hexit (Nat.le_refl _) (fun token hmessage => ?_) hturn (hreported e rfl)
    cases e with
    | message => cases hinside
    | _ => cases hmessage
  | deliver message rest processIdentity groupId members c hinbound hexit hturn =>
    refine h.turn hexit ?_ (fun token hmessage => ?_) hturn (hreported _ rfl)
    · rw [hinbound]
      exact (List.sublist_cons_self message rest).countP_le
    · have hcount : (message :: rest).countP (·.isStart) = rest.countP (·.isStart) + 1 := by
        rw [List.countP_cons, if_pos (isStart_of_parse hmessage)]
      exact Nat.le_of_eq (hinbound ▸ hcount.symm)
  | taken message rest houtbox =>
    refine ⟨⟨h.truthful.observation, fun token o hmem => ?_, h.truthful.sending, h.truthful.exit⟩, h.result,
      fun token o hmem => ?_, h.closed, h.oneStart, h.sent, h.starting, h.spawned, h.ended, h.clearing, h.returned, h.group⟩
    · exact h.truthful.outbox token o (houtbox ▸ List.mem_cons_of_mem _ hmem)
    · rcases List.mem_append.mp hmem with hmem | hmem
      · exact h.outbound token o hmem
      · cases List.mem_singleton.mp hmem
        exact h.truthful.outbox token o (houtbox ▸ List.mem_cons_self)
  | lost message rest houtbound =>
    exact ⟨h.truthful, h.result, fun token o hmem => h.outbound token o (houtbound ▸ List.mem_cons_of_mem _ hmem),
      h.closed, h.oneStart, h.sent, h.starting, h.spawned, h.ended, h.clearing, h.returned, h.group⟩
  | receive message rest processIdentity groupId houtbound =>
    have hrest : PassInvariant { s with outbound := rest } :=
      ⟨h.truthful, h.result, fun token o hmem => h.outbound token o (houtbound ▸ List.mem_cons_of_mem _ hmem),
        h.closed, h.oneStart, h.sent, h.starting, h.spawned, h.ended, h.clearing, h.returned, h.group⟩
    refine hrest.onMessage (fun token observation hmessage => ?_) processIdentity groupId
    exact h.outbound token observation (houtbound ▸ hmessage ▸ List.mem_cons_self)
  | closes exit hexit =>
    refine ⟨h.truthful, h.result, h.outbound, fun other hclosed => ?_, h.oneStart, h.sent, h.starting, h.spawned, h.ended,
      h.clearing, h.returned, h.group⟩
    cases hclosed
    exact hexit
  | prepare hphase =>
    have hnext := hquiet .handshaking ⟨rfl, fun _ h => (by cases h), fun _ h => (by cases h)⟩
    refine ⟨hnext.truthful, h.result, h.outbound, h.closed, ?_, h.sent, h.starting, h.spawned, h.ended, hnext.clearing,
      hnext.returned, h.group⟩
    refine Nat.le_trans ?_ h.oneStart
    have hnone : [LauncherExecutionMessage.prepare s.executionToken].countP (·.isStart) = 0 := rfl
    show [LauncherExecutionMessage.prepare s.executionToken].countP (·.isStart) + s.controller.starting +
      s.controller.spawned.length ≤ s.inbound.countP (·.isStart) + s.controller.starting + s.controller.spawned.length
    omega
  | prepareThrows _ => exact hquiet _ ⟨rfl, fun _ h => (by cases h), fun _ h => (by cases h)⟩
  | abortPrepared prepared _ _ => exact hquiet _ ⟨rfl, fun _ h => (by cases h), fun _ h => (by cases h)⟩
  | register prepared res db _ _ _ =>
    cases res with
    | ok _ => exact h.quiet ⟨rfl, fun _ h => (by cases h), fun _ h => (by cases h)⟩ db
    | error _ => exact h.quiet ⟨rfl, fun _ h => (by cases h), fun _ h => (by cases h)⟩ db
  | abortRegistered _ _ => exact hquiet _ ⟨rfl, fun _ h => (by cases h), fun _ h => (by cases h)⟩
  | abortTerminated registered _ =>
    cases registered with
    | true => exact hquiet _ ⟨rfl, fun pass h => (by cases h; exact cancelledPass_failed), fun _ h => (by cases h)⟩
    | false => exact hquiet _ ⟨rfl, fun _ h => (by cases h), fun pass h => (by cases h; exact cancelledPass_failed)⟩
  | abortThrows registered _ => exact hquiet _ ⟨rfl, fun _ h => (by cases h), fun _ h => (by cases h)⟩
  | authorize res db _ _ _ =>
    cases res with
    | error _ => exact h.quiet ⟨rfl, fun _ h => (by cases h), fun _ h => (by cases h)⟩ db
    | ok answer =>
      cases answer with
      | true => exact h.quiet ⟨rfl, fun _ h => (by cases h), fun _ h => (by cases h)⟩ db
      | false => exact h.quiet ⟨rfl, fun _ h => (by cases h), fun _ h => (by cases h)⟩ db
  | sendStart _ hstarted hexit _ =>
    refine h.start hstarted ⟨h.truthful.observation, h.truthful.outbox, h.truthful.sending, fun _ hcode => ?_⟩
      (fun _ h => (by cases h)) (fun _ h => (by cases h)) (by simp)
    rw [hexit] at hcode
    cases hcode
  | sendStartFails left _ hstarted =>
    refine h.start hstarted (h.truthful.mono fun hawaits => (by cases hawaits)) (fun _ h => (by cases h))
      (fun _ h => (by cases h)) ?_
    cases left <;> simp
  | abortWins hphase _ => exact h.waits (by rw [hphase]; rfl) rfl
  | terminated hphase => exact h.waits (by rw [hphase]; rfl) rfl
  | terminateThrows _ => exact hquiet _ ⟨rfl, fun _ h => (by cases h), fun _ h => (by cases h)⟩
  | groupChecked prepared closed groupExists hphase hprepared hclosed =>
    exact h.afterGroupCheck hphase hprepared hclosed groupExists
  | clear pass res db hphase hclear => exact h.afterClear hphase hclear
  | cleaned registered _ => exact h.quiet ⟨rfl, fun _ h => (by cases h), fun _ h => (by cases h)⟩ _
  | cleanThrows registered _ => exact hquiet _ ⟨rfl, fun _ h => (by cases h), fun _ h => (by cases h)⟩
  | passAborted pass _ _ => exact hquiet _ ⟨rfl, fun _ h => (by cases h), fun _ h => (by cases h)⟩
  | finish pass now res db _ _ _ _ => exact h.quiet ⟨rfl, fun _ h => (by cases h), fun _ h => (by cases h)⟩ db
  | again generation completedGeneration controllerPid success executionToken _ _ => exact passInvariant_fresh ..
  | cancel =>
    exact ⟨h.truthful, h.result, h.outbound, h.closed, h.oneStart, h.sent, h.starting, h.spawned, h.ended, h.clearing,
      h.returned, h.group⟩
  | dies => exact hquiet _ ⟨rfl, fun _ h => (by cases h), fun _ h => (by cases h)⟩
  | othersCommit db =>
    exact ⟨h.truthful, h.result, h.outbound, h.closed, h.oneStart, h.sent, h.starting, h.spawned, h.ended, h.clearing,
      h.returned, h.group⟩

theorem passInvariant_run {tr : List PassLabel}
    (h : Run ((passMachine ownerToken ownerPid).guarded Reported) tr s) : PassInvariant s := by
  refine h.invariant ?_ ?_
  · rintro s ⟨executionToken, generation, controllerPid, aborted, db, _, rfl⟩
    exact passInvariant_fresh ..
  · intro s l t hinv hstep
    exact passInvariant_step hinv hstep.2 hstep.1

theorem finish_phase {success : Bool} (h : PassStep ownerToken ownerPid s (.finish success) t) :
    ∃ pass, s.phase = .returned pass ∧ passSucceeded pass = success := by
  generalize hl : PassLabel.finish success = l at h
  cases h with
  | finish pass now res db hphase _ _ _ =>
    cases hl
    exact ⟨pass, hphase, rfl⟩
  | _ => cases hl

end Steps

/-- While the controller leaves with a report as long as the launcher waits: a pass finished as
    a success had one supervisor, spawned after START, that exited with code 0 and no signal;
    after that the controller's group was seen to be absent, and after that its record was cleared. -/
theorem finish_after_success {ownerToken : String} {ownerPid : Int} {tr : List PassLabel} {s t : Pass}
    (hrun : Run ((passMachine ownerToken ownerPid).guarded Reported) tr s)
    (hstep : (passMachine ownerToken ownerPid).step s (.finish true) t) :
    ∃ pid spawnErrorMessage db, s.controller.spawned = [⟨some pid, spawnErrorMessage, some (.code 0)⟩] ∧
      ¬Carries s.executionToken db ∧
      List.Sublist [.startSent, .startDelivered, .spawned, .exited (.code 0), .groupAbsent s.controllerPid, .cleared db] s.log := by
  have hinv := passInvariant_run hrun
  obtain ⟨pass, hphase, hsuccess⟩ := finish_phase hstep
  obtain ⟨⟨supervisor, hmem, hpid, hclosed⟩, db, hdb, hlog⟩ := hinv.returned pass hphase hsuccess
  have hone : s.controller.spawned.length ≤ 1 := by
    have hone := hinv.oneStart
    unfold Pass.tickets at hone
    split at hone <;> omega
  obtain ⟨pid, hpid⟩ := Option.ne_none_iff_exists'.mp hpid
  refine ⟨pid, supervisor.spawnErrorMessage, db, ?_, hdb, hlog⟩
  cases hspawned : s.controller.spawned with
  | nil =>
    rw [hspawned] at hmem
    cases hmem
  | cons first others =>
    rw [hspawned, List.length_cons] at hone
    have hothers : others = [] := List.eq_nil_of_length_eq_zero (by omega)
    rw [hspawned, hothers] at hmem
    cases List.mem_singleton.mp hmem
    rw [hothers, ← hpid, ← hclosed]

/-! ### An inert controller -/

def samplePass : Pass := Pass.fresh "execution-a" 1 42 false ownedDb

def passPrepared : PreparedSupervisorPass := ⟨"execution-a", 42, "birth-42", 42⟩

/-- READY has been received. -/
def sampleRegistering : Pass :=
  { samplePass with
    controller := { ControllerState.initial with executionToken := some "execution-a", sending := [.ready] }
    phase := .registering passPrepared
    prepared := some passPrepared }

def sampleRegisteredDb : Db :=
  (registerActiveExecution ownedDb (samplePass.executionOptions "owner-a" 100 passPrepared)).2

def sampleAuthorizedDb : Db := (authorizeActiveExecutionStart sampleRegisteredDb (samplePass.fence "owner-a" 100)).2

/-- START is in flight. -/
def sampleAwaiting : Pass :=
  { sampleRegistering with
    inbound := [.start "execution-a"]
    phase := .awaiting
    started := true
    db := sampleAuthorizedDb
    log := [.startSent] }

/-- A run to a state written out. -/
theorem reaches_eq {σ α : Type} {M : Machine σ α} {tr : List α} {s t : σ} (h : Run M tr s) (heq : s = t) :
    ∃ tr, Run M tr t := ⟨tr, heq ▸ h⟩

theorem run_sampleAwaiting {c : Pass → PassLabel → Prop} (hc : ∀ s l, s.phase.awaits = false → c s l) :
    ∃ tr, Run ((passMachine "owner-a" 100).guarded c) tr sampleAwaiting := by
  have h0 : Run ((passMachine "owner-a" 100).guarded c) [] samplePass :=
    Run.start ⟨"execution-a", 1, 42, false, ownedDb, by decide, rfl⟩
  have h1 := h0.snoc ⟨hc _ _ rfl, .prepare rfl⟩
  have h2 := h1.snoc ⟨hc _ _ rfl, .deliver _ _ (some "birth-42") (some 42) none _ rfl rfl (.message _ _ _ _ rfl)⟩
  have h3 := h2.snoc ⟨hc _ _ rfl, .controller (.resume 0 none none) _ rfl (by decide)
    (.resume 0 (.ready "execution-a" "birth-42" 42) none none (by decide))⟩
  have h4 := h3.snoc ⟨hc _ _ rfl, .taken (.ready "execution-a" 42 "birth-42" 42) [] (by decide)⟩
  have h5 := h4.snoc ⟨hc _ _ rfl, .receive _ _ (some "birth-42") (some 42) rfl⟩
  obtain ⟨tr, h5⟩ := reaches_eq (t := sampleRegistering) h5 (by decide)
  have h6 := h5.snoc ⟨hc _ _ rfl, .register passPrepared _ _ rfl rfl rfl⟩
  have h7 := h6.snoc ⟨hc _ _ (by decide), .authorize _ _ (by decide) (by decide) rfl⟩
  have h8 := h7.snoc ⟨hc _ _ (by decide), .sendStart (by decide) (by decide) (by decide)
    (by decide)⟩
  exact reaches_eq h8 (by decide)

theorem reported_of_ne {s : Pass} {e : ControllerEvent} (hdisconnect : e ≠ .disconnect) (hdrained : e ≠ .drained) :
    Reported s (.controller e) := by
  intro e' he _ hleaves
  cases he
  rcases hleaves with ⟨h, _⟩ | ⟨h, _⟩
  · exact hdisconnect h
  · exact hdrained h

/-- The supervisor has exited with code 0; RESULT was lost. -/
def sampleReturned : Pass :=
  { sampleAwaiting with
    controller := { sampleAwaiting.controller with
      supervisor := some 0
      supervisorObservation := some ⟨some 0, none, none⟩
      terminationStarted := true
      resultSending := true
      sending := [.ready, .started]
      spawned := [⟨some 43, none, some (.code 0)⟩]
      outbox := [.started "execution-a" 43, .result "execution-a" ⟨some 0, none, none⟩]
      observed := [some [42]]
      exit := some (.code 0) }
    inbound := []
    phase := .returned ⟨some 0, none, none, none⟩
    closed := some (.code 0)
    db := (clearActiveExecution sampleAuthorizedDb (samplePass.fence "owner-a" 100)).2
    log := [.startSent, .startDelivered, .spawned, .exited (.code 0), .groupAbsent 42,
      .cleared (clearActiveExecution sampleAuthorizedDb (samplePass.fence "owner-a" 100)).2] }

theorem run_sampleReturned : ∃ tr, Run ((passMachine "owner-a" 100).guarded Reported) tr sampleReturned := by
  have hlauncher : ∀ s, Reported s .launcher := fun s e he => (by cases he)
  obtain ⟨tr, h0⟩ := run_sampleAwaiting (c := Reported) fun s l hawaits e _ h => by
    rw [hawaits] at h
    cases h
  have h1 := h0.snoc ⟨reported_of_ne (fun h => (by cases h)) fun h => (by cases h),
    .deliver _ _ none none none _ rfl rfl (.message _ _ _ _ rfl)⟩
  have h2 := h1.snoc ⟨reported_of_ne (fun h => (by cases h)) fun h => (by cases h),
    .controller (.resume 0 (some 43) none) _ rfl (by decide) (.resume 0 .start (some 43) none (by decide))⟩
  have h3 := h2.snoc ⟨reported_of_ne (fun h => (by cases h)) fun h => (by cases h),
    .controller (.resume 0 none none) _ rfl (by decide) (.resume 0 (.started 0 43) none none (by decide))⟩
  have h4 := h3.snoc ⟨reported_of_ne (fun h => (by cases h)) fun h => (by cases h),
    .controller (.close 0 (.code 0) (some [42])) _ rfl (by decide)
      (.close 0 ⟨some 43, none, none⟩ (.code 0) (some [42]) (by decide) rfl
        (show (0 : Int) ≤ 0 ∧ (0 : Int) < 256 from by decide))⟩
  have h5 := h4.snoc ⟨reported_of_ne (fun h => (by cases h)) fun h => (by cases h),
    .controller (.sent 2 false none) _ rfl (by decide) (.sent 2 (.result 0) false none (by decide))⟩
  have h6 := h5.snoc ⟨hlauncher _, .closes (.code 0) (by decide)⟩
  have h7 := h6.snoc ⟨hlauncher _, .groupChecked passPrepared (.code 0) false (.inl (by decide)) rfl (by decide)⟩
  have h8 := h7.snoc ⟨hlauncher _, .clear ⟨some 0, none, none, none⟩ _ _ (by decide) rfl⟩
  exact reaches_eq h8 (by decide)

theorem finish_after_success_sample :
    ∃ pid spawnErrorMessage db, sampleReturned.controller.spawned = [⟨some pid, spawnErrorMessage, some (.code 0)⟩] ∧
      ¬Carries sampleReturned.executionToken db ∧
      List.Sublist [.startSent, .startDelivered, .spawned, .exited (.code 0), .groupAbsent sampleReturned.controllerPid, .cleared db]
        sampleReturned.log := by
  obtain ⟨tr, hrun⟩ := run_sampleReturned
  exact finish_after_success hrun
    (.finish ⟨some 0, none, none, none⟩ 7 _ _ rfl rfl (by decide) rfl)

/-- What the launcher has once the controller is gone: no result, exit code 0. -/
def sampleInert : Pass :=
  { sampleAwaiting with
    controller := { sampleAwaiting.controller with connected := false, exit := some (.code 0) }
    phase := .returned ⟨some 0, none, none, none⟩
    closed := some (.code 0)
    db := (clearActiveExecution sampleAuthorizedDb (samplePass.fence "owner-a" 100)).2
    log := [.startSent, .groupAbsent 42, .cleared (clearActiveExecution sampleAuthorizedDb (samplePass.fence "owner-a" 100)).2] }

/-- The channel closes before START is read: the pass is a success without a supervisor. -/
theorem inert_controller_succeeds :
    ∃ tr s t, Run (passMachine "owner-a" 100) tr s ∧ (passMachine "owner-a" 100).step s (.finish true) t ∧
      s.controller.spawned = [] ∧ .startDelivered ∉ s.log := by
  obtain ⟨tr, h0⟩ := run_sampleAwaiting (c := fun _ _ => True) fun _ _ _ => trivial
  have h0 := h0.of_guarded
  have h1 := h0.snoc (M := passMachine "owner-a" 100) (.controller .channelCloses _ rfl rfl (.channelCloses rfl))
  have h2 := h1.snoc (M := passMachine "owner-a" 100) (.controller .disconnect _ rfl rfl (.disconnect rfl))
  have h3 := h2.snoc (M := passMachine "owner-a" 100) (.closes (.code 0) (by decide))
  have h4 := h3.snoc (M := passMachine "owner-a" 100) (.groupChecked passPrepared (.code 0) false (.inl rfl) rfl rfl)
  have h5 := h4.snoc (M := passMachine "owner-a" 100)
    (.clear ⟨some 0, none, none, none⟩ _ _ (by decide) rfl)
  obtain ⟨tr, h5⟩ := reaches_eq (t := { sampleInert with inbound := [.start "execution-a"] }) h5 (by decide)
  exact ⟨tr, _, _, h5, .finish ⟨some 0, none, none, none⟩ 7 _ _ rfl rfl (by decide) rfl, rfl, by decide⟩

end GitCommitsPush.Reconciliation
