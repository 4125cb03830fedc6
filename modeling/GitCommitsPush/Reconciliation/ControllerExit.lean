/-
  GitCommitsPush.Reconciliation.ControllerExit — what the exit code of a controller says of
  its supervisor (`entrypoints/execution-controller.ts`).

  A controller reports the end of its supervisor twice, in RESULT and in its own exit code.
  `Truthful` says that neither tells of an end nobody saw; `turn_truthful` that every turn
  keeps it but two, which end the controller with code 0 on no report at all: `disconnect`
  before there is a supervisor, and an event loop that drains.
-/

import GitCommitsPush.Reconciliation.ExecutionController

namespace GitCommitsPush.Reconciliation

/-! ## Reports -/

/-- The report of a supervisor that has ended so. -/
def Reports (spawned : List Supervisor) (observation : SupervisorObservation) : Prop :=
  ∃ supervisor ∈ spawned, ∃ exit, supervisor.closed = some exit ∧ supervisor.MayEnd exit ∧
    observation.exitCode = exit.exitCode ∧ observation.signal = exit.signal

/-- A supervisor ran and exited with code 0. -/
def RanToSuccess (spawned : List Supervisor) : Prop :=
  ∃ supervisor ∈ spawned, supervisor.pid ≠ none ∧ supervisor.closed = some (.code 0)

/-- No child is forgotten, and what has ended stays as it ended. -/
def KeepsEnds (before after : List Supervisor) : Prop :=
  ∀ supervisor ∈ before, ∀ exit, supervisor.closed = some exit →
    ∃ kept ∈ after, kept.pid = supervisor.pid ∧ kept.closed = some exit

theorem KeepsEnds.refl (spawned : List Supervisor) : KeepsEnds spawned spawned :=
  fun supervisor h _ hclosed => ⟨supervisor, h, rfl, hclosed⟩

theorem KeepsEnds.append (spawned more : List Supervisor) : KeepsEnds spawned (spawned ++ more) :=
  fun supervisor h _ hclosed => ⟨supervisor, List.mem_append_left more h, rfl, hclosed⟩

/-- A change of one child that leaves its end as it is, or ends a child that had not. -/
theorem KeepsEnds.modify {spawned : List Supervisor} {child : Nat} {f : Supervisor → Supervisor}
    (hpid : ∀ supervisor, (f supervisor).pid = supervisor.pid)
    (hclosed : ∀ supervisor exit, spawned[child]? = some supervisor → supervisor.closed = some exit →
      (f supervisor).closed = some exit) : KeepsEnds spawned (spawned.modify child f) := by
  intro supervisor hmem exit hexit
  obtain ⟨i, hi, hget⟩ := List.mem_iff_getElem.mp hmem
  have hlength : i < (spawned.modify child f).length := by rw [List.length_modify]; exact hi
  refine ⟨(spawned.modify child f)[i], List.getElem_mem hlength, ?_⟩
  rw [List.getElem_modify, hget]
  by_cases hchild : child = i
  · rw [if_pos hchild]
    refine ⟨hpid supervisor, hclosed supervisor exit ?_ hexit⟩
    rw [hchild, List.getElem?_eq_getElem hi, hget]
  · rw [if_neg hchild]
    exact ⟨rfl, hexit⟩

theorem Reports.mono {before after : List Supervisor} {observation : SupervisorObservation} (h : Reports before observation)
    (hkeeps : KeepsEnds before after) : Reports after observation := by
  obtain ⟨supervisor, hmem, exit, hclosed, hends, hcode, hsignal⟩ := h
  obtain ⟨kept, hkept, hpid, hkeptClosed⟩ := hkeeps supervisor hmem exit hclosed
  refine ⟨kept, hkept, exit, hkeptClosed, ?_, hcode, hsignal⟩
  unfold Supervisor.MayEnd at hends ⊢
  rw [hpid]
  exact hends

theorem RanToSuccess.mono {before after : List Supervisor} (h : RanToSuccess before) (hkeeps : KeepsEnds before after) :
    RanToSuccess after := by
  obtain ⟨supervisor, hmem, hpid, hclosed⟩ := h
  obtain ⟨kept, hkept, hsame, hkeptClosed⟩ := hkeeps supervisor hmem _ hclosed
  exact ⟨kept, hkept, by rw [hsame]; exact hpid, hkeptClosed⟩

/-- A code that the parent sees as 0 is that of a supervisor that exited with 0. -/
theorem Reports.success {spawned : List Supervisor} {observation : SupervisorObservation} {code : Int}
    (h : Reports spawned observation) (hcode : observation.exitCode = some code) (hzero : code % 256 = 0) :
    RanToSuccess spawned ∧ observation.signal = none := by
  obtain ⟨supervisor, hmem, exit, hclosed, hends, hexitCode, hsignal⟩ := h
  rw [hcode] at hexitCode
  cases exit with
  | killed signal => cases hexitCode
  | code exitCode =>
    cases hexitCode
    refine ⟨⟨supervisor, hmem, ?_⟩, hsignal⟩
    unfold Supervisor.MayEnd at hends
    cases hpid : supervisor.pid with
    | none =>
      rw [hpid] at hends
      dsimp only at hends
      omega
    | some pid =>
      rw [hpid] at hends
      dsimp only at hends
      have hcode : code = 0 := by omega
      exact ⟨by simp, by rw [hclosed, hcode]⟩

/-! ## A controller that tells the truth -/

/-- Every report is of an end that was seen; where `awaited`, so is exit code 0. -/
structure Truthful (awaited : Prop) (s : ControllerState) : Prop where
  observation : ∀ observation, s.supervisorObservation = some observation → Reports s.spawned observation
  outbox : ∀ token observation, .result token observation ∈ s.outbox → Reports s.spawned observation
  sending : ∀ code, .result code ∈ s.sending →
    code = 1 ∨ ∃ observation, Reports s.spawned observation ∧ observation.exitCode = some code
  exit : awaited → s.exit = some (.code 0) → RanToSuccess s.spawned

section Turns

variable {ownPid : Int} {awaited : Prop} {s : ControllerState}

theorem truthful_exitController (h : Truthful awaited s) {exitCode : Int}
    (hzero : exitCode % 256 = 0 → RanToSuccess s.spawned) : Truthful awaited (s.exitController exitCode) := by
  unfold ControllerState.exitController
  split
  · exact h
  · refine ⟨h.observation, h.outbox, h.sending, fun _ hexit => hzero ?_⟩
    simpa using hexit

/-- The code that goes with an observation. -/
theorem truthful_code (h : Truthful awaited s) :
    let code := (s.supervisorObservation.bind (·.exitCode)).getD 1
    (code % 256 = 0 → RanToSuccess s.spawned) ∧
      (code = 1 ∨ ∃ observation, Reports s.spawned observation ∧ observation.exitCode = some code) := by
  dsimp only
  cases hobserved : s.supervisorObservation with
  | none => exact ⟨fun hzero => absurd hzero (by decide), .inl rfl⟩
  | some observation =>
    have hreports := h.observation observation hobserved
    cases hcode : observation.exitCode with
    | none =>
      simp only [Option.bind_some, hcode, Option.getD_none]
      exact ⟨fun hzero => absurd hzero (by decide), .inl True.intro⟩
    | some code =>
      simp only [Option.bind_some, hcode, Option.getD_some]
      exact ⟨fun hzero => (hreports.success hcode hzero).1, .inr ⟨observation, hreports, hcode⟩⟩

theorem truthful_finishWhenQuiescent (h : Truthful awaited s) (members : Option (List Int)) :
    Truthful awaited (s.finishWhenQuiescent ownPid members) := by
  have hcode := truthful_code h
  unfold ControllerState.finishWhenQuiescent
  split
  · exact h
  · have hlooked : Truthful awaited { s with observed := s.observed ++ [members] } :=
      ⟨h.observation, h.outbox, h.sending, h.exit⟩
    dsimp only at hcode ⊢
    split
    · exact hlooked
    · split
      · exact hlooked
      · split
        · rename_i observation token hobserved _
          split
          · refine ⟨h.observation, fun t o hmem => ?_, fun code hmem => ?_, h.exit⟩
            · rcases List.mem_append.mp hmem with hmem | hmem
              · exact h.outbox t o hmem
              · cases List.mem_singleton.mp hmem
                exact h.observation _ hobserved
            · rcases List.mem_append.mp hmem with hmem | hmem
              · exact h.sending code hmem
              · cases List.mem_singleton.mp hmem
                exact hcode.2
          · exact truthful_exitController hlooked hcode.1
        · exact truthful_exitController hlooked hcode.1

theorem truthful_beginTermination (h : Truthful awaited s) (members : Option (List Int)) :
    Truthful awaited (s.beginTermination ownPid members) := by
  unfold ControllerState.beginTermination
  split
  · exact h
  · apply truthful_finishWhenQuiescent
    exact ⟨h.observation, h.outbox, h.sending, h.exit⟩

theorem truthful_complete (h : Truthful awaited s) {sending : Sending}
    (hsending : ∀ code, sending = .result code →
      code = 1 ∨ ∃ observation, Reports s.spawned observation ∧ observation.exitCode = some code)
    (failed : Bool) (members : Option (List Int)) : Truthful awaited (s.complete ownPid sending failed members) := by
  cases sending with
  | ready =>
    cases failed with
    | true => exact truthful_exitController h fun hzero => absurd hzero (by decide)
    | false => exact h
  | started =>
    cases failed with
    | true => exact truthful_beginTermination h members
    | false => exact h
  | result code =>
    refine truthful_exitController h fun hzero => ?_
    rcases hsending code rfl with rfl | ⟨observation, hreports, hcode⟩
    · exact absurd hzero (by decide)
    · exact (hreports.success hcode hzero).1

theorem truthful_sendMessage (h : Truthful awaited s) {message : ControllerExecutionMessage} {onComplete : Sending}
    (hmessage : ∀ token observation, message ≠ .result token observation) (hresult : ∀ code, onComplete ≠ .result code)
    (members : Option (List Int)) : Truthful awaited (s.sendMessage ownPid message onComplete members) := by
  unfold ControllerState.sendMessage
  split
  · refine ⟨h.observation, fun token observation hmem => ?_, fun code hmem => ?_, h.exit⟩
    · rcases List.mem_append.mp hmem with hmem | hmem
      · exact h.outbox token observation hmem
      · exact absurd (List.mem_singleton.mp hmem).symm (hmessage token observation)
    · rcases List.mem_append.mp hmem with hmem | hmem
      · exact h.sending code hmem
      · exact absurd (List.mem_singleton.mp hmem).symm (hresult code)
  · exact truthful_complete h (fun code hcode => absurd hcode (hresult code)) true members

theorem truthful_listen (h : Truthful awaited s) (child : Nat) : Truthful awaited (s.listen child) := by
  unfold ControllerState.listen
  split
  · exact ⟨h.observation, h.outbox, h.sending, h.exit⟩
  · exact h

/-- Reports outlive a change of the children that keeps them. -/
theorem Truthful.keeps (h : Truthful awaited s) {spawned : List Supervisor} (hkeeps : KeepsEnds s.spawned spawned) :
    Truthful awaited { s with spawned := spawned } :=
  ⟨fun o ho => (h.observation o ho).mono hkeeps, fun t o ho => (h.outbox t o ho).mono hkeeps,
    fun code hcode => (h.sending code hcode).imp_right fun ⟨o, ho, hc⟩ => ⟨o, ho.mono hkeeps, hc⟩,
    fun hawaited hexit => (h.exit hawaited hexit).mono hkeeps⟩

theorem truthful_spawnSupervisor (h : Truthful awaited s) (pid : Option Int) :
    Truthful awaited (s.spawnSupervisor pid) := by
  have hspawned : Truthful awaited { s with spawned := s.spawned ++ [⟨pid, none, none⟩] } := h.keeps (KeepsEnds.append _ _)
  unfold ControllerState.spawnSupervisor
  cases pid with
  | some supervisorPid => exact ⟨hspawned.observation, hspawned.outbox, hspawned.sending, hspawned.exit⟩
  | none =>
    apply truthful_listen
    exact ⟨hspawned.observation, hspawned.outbox, hspawned.sending, hspawned.exit⟩

theorem truthful_resume (h : Truthful awaited s) (suspension : Suspension) (pid : Option Int) (members : Option (List Int)) :
    Truthful awaited (s.resume ownPid suspension pid members) := by
  cases suspension with
  | ready token processIdentity groupId =>
    simp only [ControllerState.resume]
    split
    · exact h
    · exact truthful_sendMessage h (fun _ _ hm => (by cases hm)) (fun _ hr => (by cases hr)) members
  | start =>
    simp only [ControllerState.resume]
    split
    · exact h
    · exact truthful_spawnSupervisor h pid
  | started child supervisorPid =>
    simp only [ControllerState.resume]
    apply truthful_listen
    exact truthful_sendMessage h (fun _ _ hm => (by cases hm)) (fun _ hr => (by cases hr)) members
  | disconnect => exact truthful_beginTermination h members

/-! ### The children through a turn -/

@[simp] theorem exitController_spawned (exitCode : Int) : (s.exitController exitCode).spawned = s.spawned := by
  unfold ControllerState.exitController
  split <;> rfl

@[simp] theorem finishWhenQuiescent_spawned (members : Option (List Int)) :
    (s.finishWhenQuiescent ownPid members).spawned = s.spawned := by
  unfold ControllerState.finishWhenQuiescent
  split
  · rfl
  · dsimp only
    split
    · rfl
    · split
      · rfl
      · split
        · split
          · rfl
          · rw [exitController_spawned]
        · rw [exitController_spawned]

@[simp] theorem beginTermination_spawned (members : Option (List Int)) :
    (s.beginTermination ownPid members).spawned = s.spawned := by
  unfold ControllerState.beginTermination
  split
  · rfl
  · rw [finishWhenQuiescent_spawned]

@[simp] theorem complete_spawned (sending : Sending) (failed : Bool) (members : Option (List Int)) :
    (s.complete ownPid sending failed members).spawned = s.spawned := by
  unfold ControllerState.complete
  cases sending with
  | ready => dsimp only; split <;> simp
  | started => dsimp only; split <;> simp
  | result code => simp

@[simp] theorem sendMessage_spawned (message : ControllerExecutionMessage) (onComplete : Sending)
    (members : Option (List Int)) : (s.sendMessage ownPid message onComplete members).spawned = s.spawned := by
  unfold ControllerState.sendMessage
  split <;> simp

@[simp] theorem listen_spawned (child : Nat) : (s.listen child).spawned = s.spawned := by
  unfold ControllerState.listen
  split <;> rfl

@[simp] theorem onClose_spawned (own : Nat) (exit : ProcessExit) (members : Option (List Int)) :
    (s.onClose ownPid own exit members).spawned = s.spawned := by
  unfold ControllerState.onClose
  simp

theorem truthful_onClose (h : Truthful awaited s) (own : Nat) {exit : ProcessExit}
    (hclosed : ∃ supervisor ∈ s.spawned, supervisor.closed = some exit ∧ supervisor.MayEnd exit)
    (members : Option (List Int)) : Truthful awaited (s.onClose ownPid own exit members) := by
  obtain ⟨supervisor, hmem, hclosed, hends⟩ := hclosed
  unfold ControllerState.onClose
  apply truthful_beginTermination
  refine ⟨fun observation hobserved => ?_, h.outbox, h.sending, h.exit⟩
  cases hobserved
  exact ⟨supervisor, hmem, exit, hclosed, hends, rfl, rfl⟩

/-- Every listener of a child that ended observes that end. -/
theorem closeListeners {exit : ProcessExit} {members : Option (List Int)} (owns : List Nat) (s : ControllerState) :
    let t := owns.foldl (fun s own => if s.completed then s else s.onClose ownPid own exit members) s
    t.spawned = s.spawned ∧ (Truthful awaited s →
      (∃ supervisor ∈ s.spawned, supervisor.closed = some exit ∧ supervisor.MayEnd exit) → Truthful awaited t) := by
  induction owns generalizing s with
  | nil => exact ⟨rfl, fun h _ => h⟩
  | cons own owns ih =>
    obtain ⟨hspawned, htruthful⟩ := ih (if s.completed then s else s.onClose ownPid own exit members)
    have hsame : (if s.completed then s else s.onClose ownPid own exit members).spawned = s.spawned := by
      split <;> simp
    refine ⟨hspawned.trans hsame, fun h hclosed => htruthful ?_ (by rw [hsame]; exact hclosed)⟩
    split
    · exact h
    · exact truthful_onClose h own hclosed members

/-- What a turn does to the children. -/
inductive ChildrenTurn (s : ControllerState) (e : ControllerEvent) (t : ControllerState) : Prop
  | same : t.spawned = s.spawned → ChildrenTurn s e t
  | spawns (index : Nat) (pid : Option Int) (members : Option (List Int)) : e = .resume index pid members →
      0 < s.starting → t.spawned = s.spawned ++ [⟨pid, none, none⟩] → ChildrenTurn s e t
  | fails (child : Nat) (message : String) : e = .spawnError child message →
      t.spawned = s.spawned.modify child (fun supervisor => { supervisor with spawnErrorMessage := some message }) →
      ChildrenTurn s e t
  | ends (child : Nat) (supervisor : Supervisor) (exit : ProcessExit) (members : Option (List Int)) :
      e = .close child exit members → s.spawned[child]? = some supervisor → supervisor.closed = none →
      supervisor.MayEnd exit →
      t.spawned = s.spawned.modify child (fun supervisor => { supervisor with closed := some exit }) → ChildrenTurn s e t

theorem ChildrenTurn.keeps {e : ControllerEvent} {t : ControllerState} (h : ChildrenTurn s e t) :
    KeepsEnds s.spawned t.spawned := by
  cases h with
  | same hsame => rw [hsame]; exact KeepsEnds.refl _
  | spawns index pid members _ _ happend => rw [happend]; exact KeepsEnds.append _ _
  | fails child message _ hmodify =>
    rw [hmodify]
    exact KeepsEnds.modify (fun _ => rfl) fun _ _ _ hclosed => hclosed
  | ends child supervisor exit members _ hget hopen _ hmodify =>
    rw [hmodify]
    refine KeepsEnds.modify (fun _ => rfl) fun other old hother hclosed => ?_
    rw [hget] at hother
    cases hother
    rw [hopen] at hclosed
    cases hclosed

theorem closeChild_spawned (child : Nat) (exit : ProcessExit) (members : Option (List Int)) :
    (s.closeChild ownPid child exit members).spawned =
      s.spawned.modify child (fun supervisor => { supervisor with closed := some exit }) := by
  unfold ControllerState.closeChild
  exact (@closeListeners ownPid True exit members _ _).1

theorem onMessage_spawned (rawMessage : JsValue) (processIdentity : Option String) (groupId : Option Int)
    (members : Option (List Int)) : (s.onMessage ownPid rawMessage processIdentity groupId members).spawned = s.spawned := by
  unfold ControllerState.onMessage
  split
  · split <;> simp
  · split
    · simp
    · dsimp only
      split
      · simp
      · split <;> simp
  · split <;> simp

theorem turn_children {e : ControllerEvent} {t : ControllerState} (hturn : ControllerTurn ownPid s e t) :
    ChildrenTurn s e t := by
  cases hturn with
  | message rawMessage processIdentity groupId members _ => exact .same (onMessage_spawned ..)
  | channelCloses _ => exact .same rfl
  | disconnect _ =>
    apply ChildrenTurn.same
    unfold ControllerState.onDisconnect
    dsimp only
    split
    · rw [exitController_spawned]
    · rfl
  | signal members => exact .same (beginTermination_spawned members)
  | resume index suspension pid members hsuspended =>
    cases suspension with
    | ready token processIdentity groupId =>
      apply ChildrenTurn.same
      simp only [ControllerState.resume]
      split <;> simp
    | start =>
      simp only [ControllerState.resume]
      split
      · exact .same rfl
      · have hstarting : 0 < s.starting := List.count_pos_iff.mpr (List.mem_of_getElem? hsuspended)
        refine .spawns index pid members rfl hstarting ?_
        unfold ControllerState.spawnSupervisor
        cases pid with
        | some supervisorPid => rfl
        | none => rw [listen_spawned]
    | started child supervisorPid =>
      apply ChildrenTurn.same
      simp only [ControllerState.resume, listen_spawned, sendMessage_spawned]
    | disconnect => exact .same (beginTermination_spawned members)
  | sent index sending failed members _ => exact .same (complete_spawned sending failed members)
  | taken message rest _ => exact .same rfl
  | spawnError child supervisor message _ _ => exact .fails child message rfl rfl
  | close child supervisor exit members hget hopen hends =>
    exact .ends child supervisor exit members rfl hget hopen hends (closeChild_spawned child exit members)
  | poll members _ => exact .same (finishWhenQuiescent_spawned members)
  | drained _ _ _ _ _ => exact .same rfl
  | dies exit _ => exact .same rfl

/-! ### Turns -/

/-- A turn that would end the controller with code 0 on no report: its channel is gone before
    there is a supervisor, or nothing is left to run though no success was observed. -/
def LeavesUnreported (s : ControllerState) (e : ControllerEvent) : Prop :=
  e = .disconnect ∧ s.supervisor = none ∨
    e = .drained ∧ s.supervisorObservation.bind (·.exitCode) ≠ some 0

theorem truthful_closeChild (h : Truthful awaited s) {child : Nat} {supervisor : Supervisor} {exit : ProcessExit}
    (hget : s.spawned[child]? = some supervisor) (hopen : supervisor.closed = none) (hends : supervisor.MayEnd exit)
    (members : Option (List Int)) : Truthful awaited (s.closeChild ownPid child exit members) := by
  have hkeeps : KeepsEnds s.spawned (s.spawned.modify child fun supervisor => { supervisor with closed := some exit }) := by
    refine KeepsEnds.modify (fun _ => rfl) fun other old hother hclosed => ?_
    rw [hget] at hother
    cases hother
    rw [hopen] at hclosed
    cases hclosed
  have hended := h.keeps hkeeps
  unfold ControllerState.closeChild
  refine (closeListeners _ _).2 ⟨hended.observation, hended.outbox, hended.sending, hended.exit⟩ ?_
  refine ⟨{ supervisor with closed := some exit }, ?_, rfl, hends⟩
  apply List.mem_of_getElem? (i := child)
  rw [List.getElem?_modify_eq, hget]
  rfl

theorem truthful_onMessage (h : Truthful awaited s) (rawMessage : JsValue) (processIdentity : Option String)
    (groupId : Option Int) (members : Option (List Int)) :
    Truthful awaited (s.onMessage ownPid rawMessage processIdentity groupId members) := by
  have hleave : ∀ {s : ControllerState}, Truthful awaited s → Truthful awaited (s.exitController 2) :=
    fun h => truthful_exitController h fun hzero => absurd hzero (by decide)
  unfold ControllerState.onMessage
  split
  · split
    · exact hleave h
    · exact truthful_beginTermination h members
  · rename_i token _
    have hnext : Truthful awaited { s with executionToken := some token } := ⟨h.observation, h.outbox, h.sending, h.exit⟩
    split
    · exact hleave h
    · dsimp only
      split
      · exact hleave hnext
      · split
        · exact hleave hnext
        · exact ⟨h.observation, h.outbox, h.sending, h.exit⟩
  · split
    · exact hleave h
    · exact ⟨h.observation, h.outbox, h.sending, h.exit⟩

theorem turn_truthful (h : Truthful awaited s) {e : ControllerEvent} {t : ControllerState}
    (hturn : ControllerTurn ownPid s e t) (hreported : awaited → ¬LeavesUnreported s e) : Truthful awaited t := by
  cases hturn with
  | message rawMessage processIdentity groupId members _ => exact truthful_onMessage h rawMessage processIdentity groupId members
  | channelCloses _ => exact ⟨h.observation, h.outbox, h.sending, h.exit⟩
  | disconnect _ =>
    unfold ControllerState.onDisconnect
    dsimp only
    split
    · rename_i hnone
      have hquiet : Truthful awaited { s with disconnecting := false } := ⟨h.observation, h.outbox, h.sending, h.exit⟩
      unfold ControllerState.exitController
      split
      · exact hquiet
      · exact ⟨h.observation, h.outbox, h.sending, fun hawaited _ => absurd (.inl ⟨rfl, hnone⟩) (hreported hawaited)⟩
    · exact ⟨h.observation, h.outbox, h.sending, h.exit⟩
  | signal members => exact truthful_beginTermination h members
  | resume index suspension pid members _ =>
    have hrest : Truthful awaited { s with suspended := s.suspended.eraseIdx index } :=
      ⟨h.observation, h.outbox, h.sending, h.exit⟩
    exact truthful_resume hrest suspension pid members
  | sent index sending failed members hsending =>
    have hrest : Truthful awaited { s with sending := s.sending.eraseIdx index } :=
      ⟨h.observation, h.outbox, fun code hmem => h.sending code (List.mem_of_mem_eraseIdx hmem), h.exit⟩
    refine truthful_complete hrest (fun code hcode => h.sending code ?_) failed members
    exact hcode ▸ List.mem_of_getElem? hsending
  | taken message rest houtbox =>
    exact ⟨h.observation, fun token o hmem => h.outbox token o (houtbox ▸ List.mem_cons_of_mem _ hmem), h.sending, h.exit⟩
  | spawnError child supervisor message hget _ =>
    have hfailed : Truthful awaited { s with spawned := (s.failSpawn child message).spawned } :=
      h.keeps (KeepsEnds.modify (fun _ => rfl) fun _ _ _ hclosed => hclosed)
    exact ⟨hfailed.observation, hfailed.outbox, hfailed.sending, hfailed.exit⟩
  | close child supervisor exit members hget hopen hends => exact truthful_closeChild h hget hopen hends members
  | poll members _ => exact truthful_finishWhenQuiescent h members
  | drained _ _ _ _ _ =>
    refine ⟨h.observation, h.outbox, h.sending, fun hawaited _ => ?_⟩
    -- the one thing left to tell of is the success that was observed
    have hsuccess : s.supervisorObservation.bind (·.exitCode) = some 0 := by
      by_cases hzero : s.supervisorObservation.bind (·.exitCode) = some 0
      · exact hzero
      · exact absurd (.inr ⟨rfl, hzero⟩) (hreported hawaited)
    obtain ⟨observation, hobserved, hcode⟩ := Option.bind_eq_some_iff.mp hsuccess
    exact ((h.observation observation hobserved).success hcode (by decide)).1
  | dies exit hcode => exact ⟨h.observation, h.outbox, h.sending, fun _ hzero => absurd (Option.some.inj hzero) hcode⟩

end Turns

end GitCommitsPush.Reconciliation
