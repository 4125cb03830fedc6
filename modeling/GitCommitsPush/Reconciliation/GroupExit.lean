/-
  GitCommitsPush.Reconciliation.GroupExit — how the controller of a running supervisor exits
  (`entrypoints/execution-controller.ts`).

  `finishWhenQuiescent` is the one way out that looks at the process table first. Every
  answer it gets is in `observed`; `GroupKept` says what they tell in each state.

  - `exits_after_quiet`: with a supervisor spawned, a handler exits only after an answer
    that shows no other member exactly when it is neither a well-formed message nor READY's
    failed write, or the result is already on its way.
  - `prepare_abandons_group`: a second PREPARE exits with the supervisor running and the
    table never read.
-/

import GitCommitsPush.Reconciliation.ExecutionController

namespace GitCommitsPush.Reconciliation

open GitCommitsPush.Lib.Runs

/-- The last answer lists nobody but the controller. -/
def QuietGroup (ownPid : Int) (observed : List (Option (List Int))) : Prop :=
  ∃ pids, observed.getLast? = some (some pids) ∧ pids.any (· != ownPid) = false

theorem quietGroup_snoc {ownPid : Int} {observed : List (Option (List Int))} {pids : List Int}
    (h : pids.any (· != ownPid) = false) : QuietGroup ownPid (observed ++ [some pids]) :=
  ⟨pids, by simp, h⟩

theorem QuietGroup.last {ownPid : Int} {observed : List (Option (List Int))} {members : Option (List Int)}
    (h : QuietGroup ownPid (observed ++ [members])) : ∃ pids, members = some pids ∧ pids.any (· != ownPid) = false := by
  obtain ⟨pids, hlast, hquiet⟩ := h
  rw [List.getLast?_concat] at hlast
  exact ⟨pids, Option.some.inj hlast, hquiet⟩

/-- While the controller runs, a quiet answer means that the result is on its way; once it
    has exited, there was one. -/
structure GroupKept (ownPid : Int) (s : ControllerState) : Prop where
  idle : s.terminationStarted = false → s.observed = []
  sending : ∀ exitCode, Sending.result exitCode ∈ s.sending → s.resultSending = true
  quiet : s.resultSending = true → QuietGroup ownPid s.observed
  exited : s.exit ≠ none → QuietGroup ownPid s.observed
  loud : s.exit = none → s.resultSending = false → ¬QuietGroup ownPid s.observed

section Kept

variable {ownPid : Int} {s : ControllerState}

/-- `exitController` by itself looks at nothing. -/
theorem exitController_leaves (h : s.exit = none) (exitCode : Int) :
    (s.exitController exitCode).exit ≠ none ∧ (s.exitController exitCode).observed = s.observed := by
  unfold ControllerState.exitController
  rw [if_neg (by simpa [ControllerState.completed] using h)]
  exact ⟨by simp, rfl⟩

/-- A controller that exits after a quiet answer. -/
theorem kept_exitController (h : GroupKept ownPid s) (hquiet : QuietGroup ownPid s.observed) (exitCode : Int) :
    GroupKept ownPid (s.exitController exitCode) := by
  unfold ControllerState.exitController
  split
  · exact h
  · exact ⟨h.idle, h.sending, h.quiet, fun _ => hquiet, fun hexit => by cases hexit⟩

theorem kept_finishWhenQuiescent (h : GroupKept ownPid s) (members : Option (List Int)) :
    GroupKept ownPid (s.finishWhenQuiescent ownPid members) := by
  unfold ControllerState.finishWhenQuiescent
  split
  · exact h
  · rename_i hclear
    simp only [not_or, Bool.not_eq_false, Bool.not_eq_true] at hclear
    obtain ⟨htermination, hcompleted, hresult⟩ := hclear
    have hexit : s.exit = none := by simpa [ControllerState.completed] using hcompleted
    -- an answer that is not quiet leaves the controller waiting
    have hloud : ¬QuietGroup ownPid (s.observed ++ [members]) →
        GroupKept ownPid { s with observed := s.observed ++ [members] } := by
      intro hmembers
      refine ⟨fun hidle => ?_, h.sending, fun hsent => ?_, fun hne => absurd hexit hne, fun _ _ => hmembers⟩
      · rw [htermination] at hidle
        cases hidle
      · rw [hresult] at hsent
        cases hsent
    dsimp only
    split
    · apply hloud
      intro hq
      obtain ⟨pids, hpids, _⟩ := hq.last
      cases hpids
    · rename_i pids
      split
      · rename_i hothers
        apply hloud
        intro hq
        obtain ⟨pids', hpids, hquiet⟩ := hq.last
        cases hpids
        rw [hothers] at hquiet
        cases hquiet
      · rename_i hothers
        have hquiet : QuietGroup ownPid (s.observed ++ [some pids]) := quietGroup_snoc (by simpa using hothers)
        have hleave : ∀ exitCode,
            GroupKept ownPid (ControllerState.exitController { s with observed := s.observed ++ [some pids] } exitCode) := by
          intro exitCode
          unfold ControllerState.exitController
          rw [if_neg (by simpa [ControllerState.completed] using hexit)]
          refine ⟨fun hidle => ?_, h.sending, fun _ => hquiet, fun _ => hquiet, fun hne => by cases hne⟩
          rw [htermination] at hidle
          cases hidle
        split
        · split
          · refine ⟨fun hidle => ?_, fun _ _ => rfl, fun _ => hquiet, fun _ => hquiet, fun _ hsent => by cases hsent⟩
            rw [htermination] at hidle
            cases hidle
          · exact hleave _
        · exact hleave _

theorem kept_beginTermination (h : GroupKept ownPid s) (members : Option (List Int)) :
    GroupKept ownPid (s.beginTermination ownPid members) := by
  unfold ControllerState.beginTermination
  split
  · exact h
  · apply kept_finishWhenQuiescent
    exact ⟨fun hidle => (by cases hidle), h.sending, h.quiet, h.exited, h.loud⟩

theorem kept_sendMessage (h : GroupKept ownPid s) (message : ControllerExecutionMessage) (onComplete : Sending)
    (hresult : ∀ exitCode, onComplete ≠ .result exitCode) (members : Option (List Int))
    (hfailed : GroupKept ownPid (s.complete ownPid onComplete true members) ∨ s.connected = true) :
    GroupKept ownPid (s.sendMessage ownPid message onComplete members) := by
  unfold ControllerState.sendMessage
  split
  · refine ⟨h.idle, fun exitCode hmem => ?_, h.quiet, h.exited, h.loud⟩
    rcases List.mem_append.mp hmem with hmem | hmem
    · exact h.sending exitCode hmem
    · exact absurd (List.mem_singleton.mp hmem).symm (hresult exitCode)
  · rename_i hconnected
    exact hfailed.resolve_right hconnected

theorem kept_listen (h : GroupKept ownPid s) (child : Nat) : GroupKept ownPid (s.listen child) := by
  unfold ControllerState.listen
  split
  · exact ⟨h.idle, h.sending, h.quiet, h.exited, h.loud⟩
  · exact h

theorem kept_spawnSupervisor (h : GroupKept ownPid s) (pid : Option Int) : GroupKept ownPid (s.spawnSupervisor pid) := by
  unfold ControllerState.spawnSupervisor
  cases pid with
  | some supervisorPid => exact ⟨h.idle, h.sending, h.quiet, h.exited, h.loud⟩
  | none =>
    apply kept_listen
    exact ⟨h.idle, h.sending, h.quiet, h.exited, h.loud⟩

theorem kept_resume (h : GroupKept ownPid s) (suspension : Suspension) (pid : Option Int) (members : Option (List Int)) :
    GroupKept ownPid (s.resume ownPid suspension pid members) := by
  cases suspension with
  | ready token processIdentity groupId =>
    simp only [ControllerState.resume]
    split
    · exact h
    · rename_i hclear
      simp only [not_or, Bool.not_eq_false] at hclear
      exact kept_sendMessage h _ .ready (fun _ hr => by cases hr) members (.inr hclear.1)
  | start =>
    simp only [ControllerState.resume]
    split
    · exact h
    · exact kept_spawnSupervisor h pid
  | started child supervisorPid =>
    simp only [ControllerState.resume]
    apply kept_listen
    exact kept_sendMessage h _ .started (fun _ hr => by cases hr) members (.inl (kept_beginTermination h members))
  | disconnect => exact kept_beginTermination h members

theorem kept_closeChild (h : GroupKept ownPid s) (child : Nat) (exit : ProcessExit) (members : Option (List Int)) :
    GroupKept ownPid (s.closeChild ownPid child exit members) := by
  have hfold : ∀ (owns : List Nat) (s : ControllerState), GroupKept ownPid s →
      GroupKept ownPid (owns.foldl (fun s own => if s.completed then s else s.onClose ownPid own exit members) s) := by
    intro owns
    induction owns with
    | nil => exact fun _ h => h
    | cons own owns ih =>
      intro s h
      apply ih
      dsimp only
      split
      · exact h
      · apply kept_beginTermination
        exact ⟨h.idle, h.sending, h.quiet, h.exited, h.loud⟩
  unfold ControllerState.closeChild
  apply hfold
  exact ⟨h.idle, h.sending, h.quiet, h.exited, h.loud⟩

/-- READY's write has failed. -/
def ReadyFailed (s : ControllerState) (e : ControllerEvent) : Prop :=
  ∃ index members, e = .sent index true members ∧ s.sending[index]? = some .ready

/-- A handler, not the end of the process under it. -/
def ControllerEvent.handled : ControllerEvent → Bool
  | .drained | .dies _ => false
  | _ => true

/-- A turn keeps `GroupKept`, or exits without a look at the table. -/
theorem turn_kept {t : ControllerState} {e : ControllerEvent} (h : GroupKept ownPid s) (hexit : s.exit = none)
    (hturn : ControllerTurn ownPid s e t) :
    GroupKept ownPid t ∨ t.exit ≠ none ∧ t.observed = s.observed ∧
      (e.launcherMessage ≠ none ∨ ReadyFailed s e ∨ s.supervisor = none ∨ e.handled = false) := by
  cases hturn with
  | message rawMessage processIdentity groupId members _ =>
    have hparsed : (ControllerEvent.message rawMessage processIdentity groupId members).launcherMessage =
        parseLauncherExecutionMessage rawMessage := rfl
    rw [hparsed]
    unfold ControllerState.onMessage
    cases hmessage : parseLauncherExecutionMessage rawMessage with
    | none =>
      dsimp only
      split
      · rename_i hnone
        exact .inr ⟨(exitController_leaves hexit 2).1, (exitController_leaves hexit 2).2, .inr (.inr (.inl hnone))⟩
      · exact .inl (kept_beginTermination h members)
    | some message =>
      have hsome : some message ≠ none := fun h => by cases h
      cases message with
      | prepare token =>
        have hnext := exitController_leaves (s := { s with executionToken := some token }) hexit 2
        dsimp only
        split
        · exact .inr ⟨(exitController_leaves hexit 2).1, (exitController_leaves hexit 2).2, .inl hsome⟩
        · split
          · exact .inr ⟨hnext.1, hnext.2, .inl hsome⟩
          · split
            · exact .inr ⟨hnext.1, hnext.2, .inl hsome⟩
            · exact .inl ⟨h.idle, h.sending, h.quiet, h.exited, h.loud⟩
      | start token =>
        dsimp only
        split
        · exact .inr ⟨(exitController_leaves hexit 2).1, (exitController_leaves hexit 2).2, .inl hsome⟩
        · exact .inl ⟨h.idle, h.sending, h.quiet, h.exited, h.loud⟩
  | channelCloses _ => exact .inl ⟨h.idle, h.sending, h.quiet, h.exited, h.loud⟩
  | disconnect _ =>
    unfold ControllerState.onDisconnect
    dsimp only
    split
    · rename_i hnone
      have hleft := exitController_leaves (s := { s with disconnecting := false }) hexit 0
      exact .inr ⟨hleft.1, hleft.2, .inr (.inr (.inl hnone))⟩
    · exact .inl ⟨h.idle, h.sending, h.quiet, h.exited, h.loud⟩
  | signal members => exact .inl (kept_beginTermination h members)
  | resume index suspension pid members _ =>
    left
    apply kept_resume
    exact ⟨h.idle, h.sending, h.quiet, h.exited, h.loud⟩
  | sent index sending failed members hsending =>
    have hmem : sending ∈ s.sending := List.mem_of_getElem? hsending
    have hrest : GroupKept ownPid { s with sending := s.sending.eraseIdx index } :=
      ⟨h.idle, fun exitCode hr => h.sending exitCode (List.mem_of_mem_eraseIdx hr), h.quiet, h.exited, h.loud⟩
    cases sending with
    | ready =>
      cases failed with
      | true =>
        have hleft := exitController_leaves (s := { s with sending := s.sending.eraseIdx index }) hexit 2
        exact .inr ⟨hleft.1, hleft.2, .inr (.inl ⟨index, members, rfl, hsending⟩)⟩
      | false => exact .inl hrest
    | started =>
      cases failed with
      | true => exact .inl (kept_beginTermination hrest members)
      | false => exact .inl hrest
    | result exitCode => exact .inl (kept_exitController hrest (h.quiet (h.sending exitCode hmem)) exitCode)
  | taken message rest _ => exact .inl ⟨h.idle, h.sending, h.quiet, h.exited, h.loud⟩
  | spawnError child supervisor message _ _ => exact .inl ⟨h.idle, h.sending, h.quiet, h.exited, h.loud⟩
  | close child supervisor exit members _ _ _ => exact .inl (kept_closeChild h child exit members)
  | poll members _ => exact .inl (kept_finishWhenQuiescent h members)
  | drained _ _ _ _ _ => exact .inr ⟨by simp, rfl, .inr (.inr (.inr rfl))⟩
  | dies exit _ => exact .inr ⟨by simp, rfl, .inr (.inr (.inr rfl))⟩

end Kept

/-- A controller that still runs has kept its group. -/
theorem groupKept_run {ownPid : Int} {tr : List ControllerEvent} {s : ControllerState}
    (h : Run (controllerMachine ownPid) tr s) : s.exit = none → GroupKept ownPid s := by
  refine h.invariant (I := fun s => s.exit = none → GroupKept ownPid s) ?_ ?_
  · intro s hs _
    cases hs
    refine ⟨fun _ => rfl, fun _ hr => (by cases hr), fun hr => (by cases hr), fun hne => absurd rfl hne, fun _ _ hq => ?_⟩
    obtain ⟨_, hlast, _⟩ := hq
    cases hlast
  · intro s e t hkept hstep hexit
    rcases turn_kept (hkept hstep.1) hstep.1 hstep.2 with h | ⟨hne, _⟩
    · exact h
    · exact absurd hexit hne

/-- A child spawned is held, as the last one. -/
theorem spawned_held {ownPid : Int} {tr : List ControllerEvent} {s : ControllerState}
    (h : Run (controllerMachine ownPid) tr s) : s.spawned ≠ [] → s.supervisor ≠ none := by
  refine h.invariant (I := fun s => s.spawned ≠ [] → s.supervisor ≠ none) ?_ ?_
  · intro s hs hne
    cases hs
    exact absurd rfl hne
  · intro s e t hheld hstep hne
    have hlength : t.spawned.length = s.spawned.length → s.spawned ≠ [] := by
      intro hsame hempty
      rw [hempty] at hsame
      exact hne (List.eq_nil_of_length_eq_zero hsame)
    cases turn_effect hstep.2 with
    | quiet _ hsupervisor hsame _ _ => rw [hsupervisor]; exact hheld (hlength hsame)
    | prepared _ _ _ _ hsupervisor hsame _ => rw [hsupervisor]; exact hheld (hlength hsame)
    | started _ _ _ _ _ hsupervisor hsame _ => rw [hsupervisor]; exact hheld (hlength hsame)
    | spawns _ _ _ _ _ hsupervisor _ _ => exact hsupervisor

/-- No well-formed message is handled and READY's write does not fail, unless the result is
    on its way. -/
def KeepsGroup (s : ControllerState) (e : ControllerEvent) : Prop :=
  s.resultSending = false → e.launcherMessage = none ∧ ¬ReadyFailed s e

/-- A well-formed message, once there is a supervisor, ends the controller. -/
theorem onMessage_supervised {ownPid : Int} {s : ControllerState} {rawMessage : JsValue} {processIdentity : Option String}
    {groupId : Option Int} {members : Option (List Int)} (hsupervisor : s.supervisor ≠ none)
    (hmessage : parseLauncherExecutionMessage rawMessage ≠ none) :
    s.onMessage ownPid rawMessage processIdentity groupId members = s.exitController 2 := by
  obtain ⟨message, hmessage⟩ := Option.ne_none_iff_exists'.mp hmessage
  unfold ControllerState.onMessage
  rw [hmessage]
  cases message with
  | prepare token => exact if_pos (.inr hsupervisor)
  | start token => exact if_pos (.inr (.inr (.inl hsupervisor)))

theorem turn_leaves {ownPid : Int} {s t : ControllerState} {e : ControllerEvent} (hexit : s.exit = none)
    (hsupervisor : s.supervisor ≠ none) (hturn : ControllerTurn ownPid s e t)
    (h : e.launcherMessage ≠ none ∨ ReadyFailed s e) : t.exit ≠ none ∧ t.observed = s.observed := by
  rcases h with hmessage | ⟨index, members, rfl, hready⟩
  · cases hturn with
    | message rawMessage processIdentity groupId members _ =>
      rw [onMessage_supervised hsupervisor hmessage]
      exact exitController_leaves hexit 2
    | _ => exact absurd rfl hmessage
  · cases hturn with
    | sent _ sending _ _ hsending =>
      cases Option.some.inj (hsending.symm.trans hready)
      exact exitController_leaves (s := { s with sending := s.sending.eraseIdx index }) hexit 2

/-- The table is first read after the spawn, and a handler of a controller with a supervisor
    exits after a quiet answer exactly when it keeps the group. -/
theorem exits_after_quiet {ownPid : Int} {tr : List ControllerEvent} {s t : ControllerState} {e : ControllerEvent}
    (hrun : Run (controllerMachine ownPid) tr s) (hstep : (controllerMachine ownPid).step s e t) :
    (t.spawned.length ≠ s.spawned.length → s.observed = []) ∧
    (s.spawned ≠ [] → e.handled = true → ((t.exit ≠ none → QuietGroup ownPid t.observed) ↔ KeepsGroup s e)) := by
  have hkept := groupKept_run hrun hstep.1
  constructor
  · intro hspawned
    obtain ⟨-, htermination, -⟩ := (turn_effect hstep.2).of_spawned hspawned
    exact hkept.idle htermination
  · intro hspawned hhandled
    have hsupervisor := spawned_held hrun hspawned
    constructor
    · intro hquiet hsending
      have habandons : ¬(e.launcherMessage ≠ none ∨ ReadyFailed s e) := by
        intro h
        obtain ⟨hexit, hobserved⟩ := turn_leaves hstep.1 hsupervisor hstep.2 h
        have hq := hquiet hexit
        rw [hobserved] at hq
        exact hkept.loud hstep.1 hsending hq
      simp only [not_or, ne_eq, Classical.not_not] at habandons
      exact habandons
    · intro hkeeps hexit
      rcases turn_kept hkept hstep.1 hstep.2 with h | ⟨_, hobserved, hwhy⟩
      · exact h.exited hexit
      · rw [hobserved]
        apply hkept.quiet
        by_cases hsending : s.resultSending = true
        · exact hsending
        · obtain ⟨hmessage, hready⟩ := hkeeps (by simpa using hsending)
          rcases hwhy with h | h | h | h
          · exact absurd hmessage h
          · exact absurd h hready
          · exact absurd h hsupervisor
          · rw [hhandled] at h
            cases h

/-! ### A second PREPARE -/

theorem run_sampleSpawned :
    Run (controllerMachine 42) [samplePrepare, sampleStart, .resume 1 (some 43) none] sampleSpawned := by
  have hstarting : Run (controllerMachine 42) [samplePrepare, sampleStart] sampleStarting :=
    Run.of_guarded (run_sampleStarting (c := fun _ _ => True) trivial trivial)
  exact hstarting.snoc (M := controllerMachine 42) ⟨rfl, .resume 1 .start (some 43) none rfl⟩

theorem prepare_abandons_group :
    ∃ tr s e t, Run (controllerMachine 42) tr s ∧ (controllerMachine 42).step s e t ∧ e.handled = true ∧
      s.spawned = [⟨some 43, none, none⟩] ∧ t.exit = some (.code 2) ∧ t.observed = [] :=
  ⟨_, _, samplePrepare, _, run_sampleSpawned, ⟨rfl, .message _ (some "id") (some 42) none rfl⟩, rfl, rfl,
    by decide, by decide⟩

/-- The supervisor is told to stop, the table shows only the controller: it keeps the group. -/
theorem exits_after_quiet_sample :
    ∃ t, (controllerMachine 42).step sampleSpawned (.signal (some [42])) t ∧
      (t.exit ≠ none → QuietGroup 42 t.observed) := by
  have hstep : (controllerMachine 42).step sampleSpawned (.signal (some [42]))
      (sampleSpawned.beginTermination 42 (some [42])) := ⟨rfl, .signal (some [42])⟩
  have hkeeps : KeepsGroup sampleSpawned (.signal (some [42])) := by
    intro _
    refine ⟨rfl, fun h => ?_⟩
    obtain ⟨_, _, h, _⟩ := h
    cases h
  exact ⟨_, hstep, ((exits_after_quiet run_sampleSpawned hstep).2 (by decide) rfl).mpr hkeeps⟩

end GitCommitsPush.Reconciliation
