/-
  GitCommitsPush.Reconciliation.MigrationRuns — runs of migrations and launchers together.

  `System.Good`: the state is at one root at most, one party at most is between its taking of the
  lock and its release, and each party's point says what it has found there. Every step keeps it
  (`good_event`), so after every run:
  - `admissions_survive`: a launcher that was answered finds its generation counted at the
    target, with no legacy root beside it.
  - `unopened_while_undecided`: nobody is in admission or was admitted while a migration may
    still be undone.
  - `migration_all_or_nothing`: when a migration releases the lock, the tree it found is whole
    at one root: at the target, idle and readable, if it answers `migrated`.
-/

import GitCommitsPush.Lib.Computed
import GitCommitsPush.Lib.Exclusion
import GitCommitsPush.Lib.Interleaving
import GitCommitsPush.Reconciliation.StateMigration

namespace GitCommitsPush.Reconciliation.StateMigration

open GitCommitsPush.Lib.Computed
open GitCommitsPush.Lib.Exclusion
open GitCommitsPush.Lib.Fallible
open GitCommitsPush.Lib.Interleaving (set_getElem?)
open GitCommitsPush.Lib.JsText
open GitCommitsPush.Lib.Runs
open GitCommitsPush.Reconciliation.Cutover

/-! ## Who is inside -/

def MigrationPc.inside : MigrationPc → Bool
  | .acquiring | .returned _ => false
  | _ => true

/-- What it moved may still be moved back. -/
def MigrationPc.undecided : MigrationPc → Bool
  | .validating | .restoring _ | .finalizing true _ => true
  | _ => false

/-- A launcher or a migration. -/
abbrev Party := String ⊕ Nat

def System.inside (s : System) : Party → Bool
  | .inl token => (s.invocations token).any (·.pc.inside)
  | .inr k => s.migrations[k]?.any (·.inside)

/-- It may open the database. -/
def working : AdmissionPc → Bool
  | .opening | .initializing | .observing _ | .deciding .. => true
  | _ => false

/-! ## The invariant -/

structure Compatible (database : Database) : Prop where
  version : database.userVersion = reconcilerSchemaVersion
  table : reconcilerStateTable ∈ database.tables

structure LauncherOk (s : System) (i : Invocation) : Prop where
  fresh : i.pc.answer = none → i.options.token ∉ s.owners
  moved : working i.pc = true → s.source = none
  compatible : ∀ attempt, i.pc.attempt = some attempt → Compatible s.admission.files.database
  deciding : ∀ attempt observed alive, i.pc = .deciding attempt observed alive → Shared.Good s.admission.shared
  answered : ∀ result, i.pc.answer = some (.ok result) → Counted s result ∧ Opened s.owners s.admission.files.database

def MigrationOk (s : System) : MigrationPc → Prop
  | .checkpointing | .moving => s.source.isSome = true ∧ s.target = none
  | .validating | .restoring _ | .finalizing true _ => s.source = none ∧ s.target.isSome = true ∧ ¬registered s
  | _ => True

structure System.Good (s : System) : Prop where
  undivided : s.source = none ∨ s.target = none
  exclusive : Exclusive s.lock s.inside
  keyed : ∀ token i, s.invocations token = some i → i.options.token = token
  source : Recorded s.owners s.source
  target : Recorded s.owners s.target
  launcher : ∀ token i, s.invocations token = some i → LauncherOk s i
  migration : ∀ (k : Nat) (pc : MigrationPc), s.migrations[k]? = some pc → MigrationOk s pc

theorem MigrationOk.outside {s : System} {pc : MigrationPc} (h : pc.inside = false) : MigrationOk s pc := by
  cases pc with
  | acquiring => trivial
  | returned result => trivial
  | _ => cases h

/-- It speaks of the roots and of who was answered only. -/
theorem MigrationOk.congr {s s' : System} {pc : MigrationPc} (h : MigrationOk s pc) (hsource : s'.source = s.source)
    (htarget : s'.target = s.target) (hregistered : registered s' → registered s) : MigrationOk s' pc := by
  cases pc with
  | checkpointing => exact ⟨hsource ▸ h.1, htarget ▸ h.2⟩
  | moving => exact ⟨hsource ▸ h.1, htarget ▸ h.2⟩
  | validating => exact ⟨hsource ▸ h.1, htarget ▸ h.2.1, fun hr => h.2.2 (hregistered hr)⟩
  | restoring error => exact ⟨hsource ▸ h.1, htarget ▸ h.2.1, fun hr => h.2.2 (hregistered hr)⟩
  | finalizing rollbackRequired result =>
    cases rollbackRequired with
    | true => exact ⟨hsource ▸ h.1, htarget ▸ h.2.1, fun hr => h.2.2 (hregistered hr)⟩
    | false => trivial
  | _ => trivial

/-! ## What the launchers see -/

section Views

variable {s s' : System}

theorem admission_database (s : System) :
    (∃ tree, s.target = some tree ∧ s.admission.files.database = tree.database) ∨
      (s.target = none ∧ s.admission.files.database = .empty) := by
  cases h : s.target with
  | some tree => exact .inl ⟨tree, rfl, by simp [System.admission, h]⟩
  | none => exact .inr ⟨rfl, by simp [System.admission, h]⟩

theorem admission_congr (h : s'.target = s.target) : s'.admission.files.database = s.admission.files.database := by
  simp [System.admission, h]

theorem rows_congr (h : s'.target = s.target) : s'.admission.rows = s.admission.rows := by
  simp [AdmissionSys.rows, admission_congr h]

/-- A readable table at the target is one the calls leave. -/
theorem System.Good.readable (hs : s.Good) {state : ReconcilerStateRecord} (h : readReconcilerState s.admission.rows = .ok state) :
    Shared.Good s.admission.shared := by
  rcases admission_database s with ⟨tree, htarget, hdatabase⟩ | ⟨-, hdatabase⟩
  · have hrows : s.admission.rows = tree.database.rows := congrArg Database.rows hdatabase
    rw [hrows] at h
    have hgood := hs.target tree state htarget h
    rw [← hrows] at hgood
    exact hgood
  · rw [AdmissionSys.rows, hdatabase] at h
    cases h

theorem Counted.congr {result : RegisterReconciliationResult} (h : Counted s result) (hsource : s'.source = s.source)
    (hrows : ∀ row, s.admission.rows = [row] → ∃ row', s'.admission.rows = [row'] ∧ row.requestedGeneration ≤ row'.requestedGeneration) :
    Counted s' result := by
  obtain ⟨hnone, row, hrow, hle⟩ := h
  obtain ⟨row', hrow', hle'⟩ := hrows row hrow
  exact ⟨hsource.trans hnone, row', hrow', Int.le_trans hle hle'⟩

theorem System.Good.counted (hs : s.Good) (h : registered s) :
    s.source = none ∧ Opened s.owners s.admission.files.database := by
  obtain ⟨token, i, result, hi, hanswer⟩ := h
  obtain ⟨hcounted, hopened⟩ := (hs.launcher token i hi).answered result hanswer
  exact ⟨hcounted.1, hopened⟩

theorem not_registered_of_source (hs : s.Good) (h : s.source.isSome = true) : ¬registered s := by
  intro hr
  rw [(hs.counted hr).1] at h
  cases h

/-- A launcher outside of admission speaks of the roots, the table and the owners. -/
theorem LauncherOk.outside {i : Invocation} (h : LauncherOk s i) (hout : i.pc.inside = false)
    (hfresh : i.pc.answer = none → i.options.token ∉ s'.owners)
    (hanswered : ∀ result, Counted s result → Opened s.owners s.admission.files.database → i.pc.answer = some (.ok result) →
      Counted s' result ∧ Opened s'.owners s'.admission.files.database) : LauncherOk s' i := by
  have hidle : working i.pc = false ∧ i.pc.attempt = none := by
    cases hpc : i.pc <;> simp [hpc, AdmissionPc.inside] at hout <;> exact ⟨rfl, rfl⟩
  refine ⟨hfresh, ?_, ?_, ?_, fun result hanswer => ?_⟩
  · intro hworking
    rw [hidle.1] at hworking
    cases hworking
  · intro attempt hattempt
    rw [hidle.2] at hattempt
    cases hattempt
  · intro attempt observed alive hpc
    rw [hpc] at hout
    cases hout
  · obtain ⟨hcounted, hopened⟩ := h.answered result hanswer
    exact hanswered result hcounted hopened hanswer

theorem LauncherOk.congr {i : Invocation} (h : LauncherOk s i) (hsource : s'.source = s.source) (htarget : s'.target = s.target)
    (howners : s'.owners = s.owners) : LauncherOk s' i := by
  have hdatabase := admission_congr htarget
  have hrows := rows_congr htarget
  refine ⟨fun hanswer => howners ▸ h.fresh hanswer, fun hworking => hsource.trans (h.moved hworking),
    fun attempt hattempt => hdatabase ▸ h.compatible attempt hattempt, fun attempt observed alive hpc => ?_, fun result hanswer => ?_⟩
  · have hshared : s'.admission.shared = s.admission.shared := by
      show Shared.mk s'.owners s'.admission.rows = Shared.mk s.owners s.admission.rows
      rw [howners, hrows]
    rw [hshared]
    exact h.deciding attempt observed alive hpc
  · obtain ⟨hcounted, hopened⟩ := h.answered result hanswer
    refine ⟨hcounted.congr hsource fun row hrow => ⟨row, hrows.trans hrow, Int.le_refl _⟩, ?_⟩
    rw [howners, hdatabase]
    exact hopened

end Views

/-! ## A migration's turn -/

section Migrations

variable {s : System} {k : Nat} {pc pc' : MigrationPc} {lock' : Bool} {source' target' : Option StateTree}

/-- What a migration's step may change. -/
def System.migrating (s : System) (k : Nat) (lock' : Bool) (source' target' : Option StateTree) (pc' : MigrationPc) : System :=
  { s with lock := lock', source := source', target := target', migrations := s.migrations.set k pc' }

theorem inside_of_launcher {token : String} {i : Invocation} (hi : s.invocations token = some i) :
    s.inside (.inl token) = i.pc.inside := by
  simp [System.inside, hi]

theorem inside_of_migration (hk : s.migrations[k]? = some pc) : s.inside (.inr k) = pc.inside := by
  simp [System.inside, hk]

theorem inside_migrating_self (hk : s.migrations[k]? = some pc) :
    (s.migrating k lock' source' target' pc').inside (.inr k) = pc'.inside := by
  have hset : (s.migrations.set k pc')[k]? = some pc' := List.getElem?_set_self (List.getElem?_eq_some_iff.mp hk).1
  simp [System.inside, System.migrating, hset]

theorem inside_migrating_other {party : Party} (hne : party ≠ .inr k) :
    (s.migrating k lock' source' target' pc').inside party = s.inside party := by
  cases party with
  | inl token => rfl
  | inr j =>
    have hj : k ≠ j := fun h => hne (by rw [h])
    simp [System.inside, System.migrating, List.getElem?_set_ne hj]

/-- While a party is inside no launcher else is. -/
theorem System.Good.launcher_outside (hs : s.Good) {party : Party} (hin : s.inside party = true) {token : String} {i : Invocation}
    (hi : s.invocations token = some i) (hne : .inl token ≠ party) : i.pc.inside = false :=
  (inside_of_launcher hi).symm.trans (hs.exclusive.others hin hne)

theorem System.Good.migration_outside (hs : s.Good) {party : Party} (hin : s.inside party = true)
    (hk : s.migrations[k]? = some pc) (hne : .inr k ≠ party) : pc.inside = false :=
  (inside_of_migration hk).symm.trans (hs.exclusive.others hin hne)

theorem System.Good.migrating (hs : s.Good) (lock' : Bool) (source' target' : Option StateTree) (hk : s.migrations[k]? = some pc)
    (hundivided : source' = none ∨ target' = none)
    (hset : pc'.inside = true → lock' = true)
    (hmay : (pc.inside = true ∨ s.lock = false) ∨ (lock' = s.lock ∧ pc'.inside = false))
    (hsource : Recorded s.owners source') (htarget : Recorded s.owners target')
    (hroots : (source' = s.source ∧ target' = s.target) ∨ (pc.inside = true ∧ ¬registered s))
    (hok : MigrationOk (s.migrating k lock' source' target' pc') pc') : (s.migrating k lock' source' target' pc').Good := by
  refine ⟨hundivided, ?_, hs.keyed, hsource, htarget, fun token i hi => ?_, fun j found hfound => ?_⟩
  · refine hs.exclusive.turn (i := .inr k) (fun party hne => inside_migrating_other hne) (fun h => ?_) ?_
    · rw [inside_migrating_self hk] at h
      exact hset h
    · rw [inside_migrating_self hk, inside_of_migration hk]
      exact hmay
  · have hi : s.invocations token = some i := hi
    have hlauncher := hs.launcher token i hi
    rcases hroots with ⟨hsame, hsame'⟩ | ⟨hin, hnone⟩
    · exact hlauncher.congr hsame hsame' rfl
    · have hout := hs.launcher_outside ((inside_of_migration hk).trans hin) hi (by simp)
      exact hlauncher.outside hout hlauncher.fresh fun result _ _ hanswer => absurd ⟨token, i, result, hi, hanswer⟩ hnone
  · rcases set_getElem? hfound with ⟨-, rfl⟩ | ⟨hne, hkept⟩
    · exact hok
    · rcases hroots with ⟨hsame, hsame'⟩ | ⟨hin, -⟩
      · exact (hs.migration j found hkept).congr hsame hsame' id
      · refine .outside (hs.migration_outside ((inside_of_migration hk).trans hin) hkept ?_)
        simpa using fun h => hne h.symm

/-- A step that leaves the roots and the lock alone. -/
theorem System.Good.goto (hs : s.Good) (hk : s.migrations[k]? = some pc) (hin : pc.inside = true)
    (hok : MigrationOk (s.goto k pc') pc') : (s.goto k pc').Good := by
  have hlock : s.lock = true := hs.exclusive.locked (.inr k) ((inside_of_migration hk).trans hin)
  exact hs.migrating s.lock s.source s.target hk hs.undivided (fun _ => hlock) (.inl (.inl hin))
    hs.source hs.target (.inl ⟨rfl, rfl⟩) hok

theorem acquireStateCutoverLock_eq_ok {directory : String} {lockExists taken : Bool}
    (h : acquireStateCutoverLock directory lockExists = .ok taken) : lockExists = false ∧ taken = true := by
  simp only [acquireStateCutoverLock, bind_eq_ok] at h
  obtain ⟨lockPath, -, htaken⟩ := h
  cases lockExists with
  | true => cases htaken
  | false => exact ⟨rfl, (Except.ok.inj htaken).symm⟩

theorem classify_moves {home : StateHome} {source target : Option StateTree} {tree : StateTree}
    (h : classify home source target = .ok (.inr tree)) : source = some tree ∧ target = none := by
  simp only [classify, bind_eq_ok] at h
  obtain ⟨-, -, -, -, h⟩ := h
  cases source with
  | none =>
    cases h
  | some found =>
    cases target with
    | some other => cases h
    | none =>
      cases h
      exact ⟨rfl, rfl⟩

variable {runtime : NodeRuntime} {home : StateHome} {view : MigrationView}

theorem good_migrate (hs : s.Good) (hk : s.migrations[k]? = some pc) : (migrate runtime home view s k pc).Good := by
  have hmigration := hs.migration k pc hk
  cases pc with
  | acquiring =>
    have hrefused : ∀ result, (s.goto k (.returned result)).Good := fun result =>
      hs.migrating s.lock s.source s.target hk hs.undivided (fun h => by cases h)
        (.inr ⟨rfl, rfl⟩) hs.source hs.target (.inl ⟨rfl, rfl⟩) trivial
    simp only [migrate]
    split
    · exact hrefused _
    · split
      · exact hrefused _
      · rename_i taken hacquired
        obtain ⟨hfree, rfl⟩ := acquireStateCutoverLock_eq_ok hacquired
        exact hs.migrating true s.source s.target hk hs.undivided (fun _ => rfl)
          (.inl (.inr hfree)) hs.source hs.target (.inl ⟨rfl, rfl⟩) trivial
  | classifying =>
    simp only [migrate]
    split
    · exact hs.goto hk rfl trivial
    · exact hs.goto hk rfl trivial
    · rename_i tree hclassified
      obtain ⟨hsource, htarget⟩ := classify_moves hclassified
      exact hs.goto hk rfl ⟨by rw [show (s.goto k _).source = s.source from rfl, hsource]; rfl, htarget⟩
  | checkpointing =>
    simp only [migrate]
    split
    · exact hs.goto hk rfl trivial
    · exact hs.goto hk rfl hmigration
  | moving =>
    simp only [migrate]
    split
    · exact hs.goto hk rfl trivial
    · have hnone := not_registered_of_source hs hmigration.1
      have hlock : s.lock = true := hs.exclusive.locked (.inr k) (inside_of_migration hk)
      exact hs.migrating s.lock none s.source hk (.inl rfl) (fun _ => hlock) (.inl (.inl rfl))
        (fun _ _ h => by cases h) hs.source (.inr ⟨rfl, hnone⟩) ⟨rfl, hmigration.1, hnone⟩
  | validating =>
    simp only [migrate]
    split
    · exact hs.goto hk rfl hmigration
    · exact hs.goto hk rfl trivial
  | restoring message =>
    simp only [migrate]
    split
    · exact hs.goto hk rfl hmigration
    · have hlock : s.lock = true := hs.exclusive.locked (.inr k) (inside_of_migration hk)
      exact hs.migrating s.lock s.target none hk (.inr rfl) (fun _ => hlock) (.inl (.inl rfl))
        hs.target (fun _ _ h => by cases h) (.inr ⟨rfl, hmigration.2.2⟩) trivial
  | listing =>
    simp only [migrate]
    split <;> exact hs.goto hk rfl trivial
  | finalizing rollbackRequired result =>
    simp only [migrate]
    split
    · rename_i hrollback
      obtain ⟨rfl, -⟩ := hrollback
      have hlock : s.lock = true := hs.exclusive.locked (.inr k) (inside_of_migration hk)
      exact hs.migrating s.lock s.target none hk (.inr rfl) (fun _ => hlock) (.inl (.inl rfl))
        hs.target (fun _ _ h => by cases h) (.inr ⟨rfl, hmigration.2.2⟩) trivial
    · exact hs.goto hk rfl trivial
  | releasing result =>
    exact hs.migrating (if view.removed = true then false else s.lock) s.source s.target hk hs.undivided (fun h => by cases h) (.inl (.inl rfl))
      hs.source hs.target (.inl ⟨rfl, rfl⟩) trivial
  | returned result => exact hs

end Migrations

/-! ## A launcher's turn -/

section Launchers

variable {s : System} {token : String} {i : Invocation} {pc : AdmissionPc}

/-- What a launcher's step may change. -/
def System.launching (s : System) (i : Invocation) (pc : AdmissionPc) (lock' : Bool) (target' : Option StateTree)
    (owners' : List String) : System :=
  { s with
    lock := lock'
    target := target'
    owners := owners'
    invocations := Function.update s.invocations i.options.token (some { i with pc }) }

/-- The step on the table: it stays a table the calls leave, and counts what it counted. -/
structure Grows (s s' : System) (i : Invocation) : Prop where
  owners : ∀ token, token ∈ s'.owners → token ∈ s.owners ∨ token = i.options.token
  opened : Opened s.owners s.admission.files.database → Opened s'.owners s'.admission.files.database
  counted : ∀ row, s.admission.rows = [row] → Opened s.owners s.admission.files.database →
    ∃ row', s'.admission.rows = [row'] ∧ row.requestedGeneration ≤ row'.requestedGeneration

theorem System.Good.launching (hs : s.Good) (lock' : Bool) (target' : Option StateTree) (owners' : List String)
    (hi : s.invocations token = some i) (hundivided : s.source = none ∨ target' = none) (hset : pc.inside = true → lock' = true)
    (hmay : (i.pc.inside = true ∨ s.lock = false) ∨ (lock' = s.lock ∧ pc.inside = false))
    (hsource : Recorded owners' s.source) (htarget : Recorded owners' target')
    (hrest : (target' = s.target ∧ owners' = s.owners ∧ ∀ result, pc.answer = some (.ok result) → i.pc.answer = some (.ok result)) ∨
      (i.pc.inside = true ∧ Grows s (s.launching i pc lock' target' owners') i))
    (hok : LauncherOk (s.launching i pc lock' target' owners') { i with pc }) :
    (s.launching i pc lock' target' owners').Good := by
  have hkey := hs.keyed token i hi
  have hself : (s.launching i pc lock' target' owners').invocations token = some { i with pc } := by
    simp [System.launching, hkey]
  have hother : ∀ other, other ≠ token → (s.launching i pc lock' target' owners').invocations other = s.invocations other := by
    intro other hne
    simp [System.launching, hkey, Function.update_of_ne hne]
  refine ⟨hundivided, ?_, fun other found hfound => ?_, hsource, htarget, fun other found hfound => ?_, fun k found hfound => ?_⟩
  · refine hs.exclusive.turn (i := .inl token) (fun party hne => ?_) (fun h => ?_) ?_
    · cases party with
      | inl other => simp [System.inside, hother other (fun h => hne (by rw [h]))]
      | inr k => rfl
    · rw [inside_of_launcher hself] at h
      exact hset h
    · rw [inside_of_launcher hself, inside_of_launcher hi]
      exact hmay
  · by_cases hne : other = token
    · subst hne
      rw [hself] at hfound
      cases hfound
      exact hkey
    · exact hs.keyed other found ((hother other hne).symm.trans hfound)
  · by_cases hne : other = token
    · subst hne
      rw [hself] at hfound
      cases hfound
      exact hok
    · rw [hother other hne] at hfound
      have hlauncher := hs.launcher other found hfound
      rcases hrest with ⟨hsame, hsame', -⟩ | ⟨hin, hgrows⟩
      · exact hlauncher.congr rfl hsame hsame'
      · have hout := hs.launcher_outside ((inside_of_launcher hi).trans hin) hfound (by simpa using hne)
        refine hlauncher.outside hout (fun hanswer hmem => ?_) fun result hcounted hopened _ => ?_
        · rcases hgrows.owners _ hmem with hmem | hsame
          · exact hlauncher.fresh hanswer hmem
          · exact hne ((hs.keyed other found hfound).symm.trans (hsame.trans hkey))
        · exact ⟨hcounted.congr rfl fun row hrow => hgrows.counted row hrow hopened, hgrows.opened hopened⟩
  · have hfound : s.migrations[k]? = some found := hfound
    rcases hrest with ⟨hsame, -, hanswers⟩ | ⟨hin, -⟩
    · refine (hs.migration k found hfound).congr rfl hsame ?_
      rintro ⟨other, j, result, hj, hanswer⟩
      by_cases hne : other = token
      · subst hne
        rw [hself] at hj
        cases hj
        exact ⟨other, i, result, hi, hanswers result hanswer⟩
      · exact ⟨other, j, result, (hother other hne).symm.trans hj, hanswer⟩
    · exact .outside (hs.migration_outside ((inside_of_launcher hi).trans hin) hfound (by simp))

/-- A step that leaves the roots and the owners alone. -/
theorem System.Good.launchingStill (hs : s.Good) (lock' : Bool) (hi : s.invocations token = some i)
    (hset : pc.inside = true → lock' = true)
    (hmay : (i.pc.inside = true ∨ s.lock = false) ∨ (lock' = s.lock ∧ pc.inside = false))
    (hanswers : ∀ result, pc.answer = some (.ok result) → i.pc.answer = some (.ok result))
    (hok : LauncherOk (s.launching i pc lock' s.target s.owners) { i with pc }) :
    (s.launching i pc lock' s.target s.owners).Good :=
  hs.launching lock' s.target s.owners hi hs.undivided hset hmay hs.source hs.target (.inl ⟨rfl, rfl, hanswers⟩) hok

/-- A point before the database is opened, or a refusal. -/
theorem LauncherOk.refused {s' : System} (h : LauncherOk s i) (hsource : s'.source = s.source) (howners : s'.owners = s.owners)
    (hbefore : i.pc.answer = none) (hworking : working pc = true → s.source = none)
    (hattempt : pc.attempt = none) (hanswer : ∀ result, pc.answer ≠ some (.ok result)) : LauncherOk s' { i with pc } := by
  refine ⟨fun _ => howners ▸ h.fresh hbefore, fun hw => hsource.trans (hworking hw), fun attempt ha => ?_, fun attempt observed alive hpc => ?_,
    fun result ha => absurd ha (hanswer result)⟩
  · have ha : pc.attempt = some attempt := ha
    rw [hattempt] at ha
    cases ha
  · have hpc : pc = .deciding attempt observed alive := hpc
    rw [hpc] at hattempt
    cases hattempt

/-- The target after the database was open, holding `database`. -/
def System.opened (s : System) (database : Database) : Option StateTree := some ((s.target.getD .made).withDatabase database)

theorem recorded_opened {owners : List String} {database : Database}
    (h : ∀ state, readReconcilerState database.rows = .ok state → Shared.Good ⟨owners, database.rows⟩) :
    Recorded owners (s.opened database) := by
  intro tree state htree hstate
  cases htree
  exact h state hstate

/-- A step with the database open that leaves it as it was. -/
theorem System.Good.launchingSame (hs : s.Good) (hi : s.invocations token = some i) (hin : i.pc.inside = true)
    (hworking : working i.pc = true) (hok : LauncherOk (s.launching i pc s.lock (s.opened s.admission.files.database) s.owners) { i with pc }) :
    (s.launching i pc s.lock (s.opened s.admission.files.database) s.owners).Good := by
  have hlauncher := hs.launcher token i hi
  have hlock : s.lock = true := hs.exclusive.locked (.inl token) ((inside_of_launcher hi).trans hin)
  refine hs.launching s.lock (s.opened s.admission.files.database) s.owners hi (.inl (hlauncher.moved hworking)) (fun _ => hlock) (.inl (.inl hin))
    hs.source (recorded_opened fun state hstate => hs.readable hstate) (.inr ⟨hin, fun _ h => .inl h, id, ?_⟩) hok
  exact fun row hrow _ => ⟨row, hrow, Int.le_refl _⟩

end Launchers

/-! ## The steps of a launcher -/

/-- What an attempt leaves of a good table. -/
theorem attempt_counts {c : Coordinator} (hc : c.WF) {options : RegisterReconciliationOptions} {observed : ReconcilerStateRecord}
    {alive : Bool} {answer : Except ReconcilerError RegisterReconciliationResult} {db : Db}
    (h : registrationAttempt options observed alive [c.toRow] = (answer, db)) :
    ∃ row, db = [row] ∧ c.requested ≤ row.requestedGeneration ∧ ∀ result, answer = .ok result → result.generation ≤ row.requestedGeneration := by
  cases answer with
  | ok result =>
    have hless := Int.le_of_lt (Int.lt_succ c.requested)
    obtain ⟨-, ⟨-, rfl, rfl⟩ | ⟨-, rfl, rfl⟩⟩ := attempt_ok hc h
    · refine ⟨_, rfl, hless, fun result h => ?_⟩
      cases h
      exact Int.le_refl _
    · refine ⟨_, rfl, hless, fun result h => ?_⟩
      cases h
      exact Int.le_refl _
  | error e =>
    have hkept := attempt_error (e := e) (congrArg Prod.fst h)
    rw [h] at hkept
    exact ⟨c.toRow, hkept, Int.le_refl _, fun result h => by cases h⟩

section Steps

variable {s : System} {token : String} {i : Invocation} {home : StateHome} {liveness : Liveness}

theorem good_acquiring (hs : s.Good) (hi : s.invocations token = some i) (hpc : i.pc = .acquiring) :
    (s.launched (advance home liveness s.admission i) false).Good := by
  have hlauncher := hs.launcher token i hi
  have hbefore : i.pc.answer = none := by rw [hpc]; rfl
  have hout : ∀ pc : AdmissionPc, working pc = false → working pc = true → s.source = none := fun pc h h' => by simp [h] at h'
  cases hacquired : acquireStateCutoverLock home.applicationStateDirectory s.lock with
  | error message =>
    have hadvance : advance home liveness s.admission i = s.admission.goto i (.returned (.error (failClosed message))) := by
      simp only [advance, hpc, show s.admission.files.stateCutoverLock = s.lock from rfl, hacquired]
    rw [hadvance]
    refine hs.launchingStill s.lock hi (fun h => by cases h) (.inr ⟨rfl, rfl⟩) (fun _ h => by cases h) ?_
    exact hlauncher.refused rfl rfl hbefore (hout _ rfl) rfl fun _ h => by cases h
  | ok taken =>
    obtain ⟨hfree, rfl⟩ := acquireStateCutoverLock_eq_ok hacquired
    have hadvance : advance home liveness s.admission i = (s.admission.withLock true).goto i .inspecting := by
      simp only [advance, hpc, show s.admission.files.stateCutoverLock = s.lock from rfl, hacquired]
    rw [hadvance]
    refine hs.launchingStill true hi (fun _ => rfl) (.inl (.inr hfree)) (fun _ h => by cases h) ?_
    exact hlauncher.refused rfl rfl hbefore (hout _ rfl) rfl fun _ h => by cases h

/-- The legacy root is checked under the lock. -/
theorem source_of_inspected {s : System} (h : inspectLegacy home s.admission.files = .ok ()) : s.source = none := by
  cases hsource : s.source with
  | none => rfl
  | some tree => simp [inspectLegacy, assertLegacyApplicationStateMigrated, System.admission, hsource] at h

theorem good_inspecting (hs : s.Good) (hi : s.invocations token = some i) (hpc : i.pc = .inspecting) :
    (s.launched (advance home liveness s.admission i) false).Good := by
  have hlauncher := hs.launcher token i hi
  have hbefore : i.pc.answer = none := by rw [hpc]; rfl
  have hin : i.pc.inside = true := by rw [hpc]; rfl
  have hlock : s.lock = true := hs.exclusive.locked (.inl token) ((inside_of_launcher hi).trans hin)
  cases hinspected : inspectLegacy home s.admission.files with
  | error text =>
    have hadvance : advance home liveness s.admission i = s.admission.goto i (.releasing (.error text)) := by
      simp only [advance, hpc, hinspected]
    rw [hadvance]
    refine hs.launchingStill s.lock hi (fun _ => hlock) (.inl (.inl hin)) (fun _ h => by cases h) ?_
    exact hlauncher.refused rfl rfl hbefore (fun h => by cases h) rfl fun _ h => by cases h
  | ok u =>
    have hadvance : advance home liveness s.admission i = s.admission.goto i .opening := by
      simp only [advance, hpc, hinspected]
    rw [hadvance]
    refine hs.launchingStill s.lock hi (fun _ => hlock) (.inl (.inl hin)) (fun _ h => by cases h) ?_
    exact hlauncher.refused rfl rfl hbefore (fun _ => source_of_inspected hinspected) rfl fun _ h => by cases h

theorem compatible_of_assert {dbPath : String} {database : Database} (h : assertCompatibleSchema dbPath database = .ok ()) :
    Compatible database := by
  unfold assertCompatibleSchema at h
  split at h
  · cases h
  · rename_i hversion
    split at h
    · cases h
    · rename_i htable
      exact ⟨by simpa using hversion, by simpa using htable⟩

/-- The top of an attempt, on a database with the schema. -/
theorem observing_ok {s' : System} {attempt : Nat} (hsource : s'.source = none)
    (hfresh : i.options.token ∉ s'.owners) (hdatabase : Compatible s'.admission.files.database) :
    LauncherOk s' { i with pc := .observing attempt } := by
  refine ⟨fun _ => hfresh, fun _ => hsource, fun _ _ => hdatabase, (fun _ _ _ h => by cases h), (fun _ h => by cases h)⟩

theorem good_opening (hs : s.Good) (hi : s.invocations token = some i) (hpc : i.pc = .opening) :
    (s.launched (advance home liveness s.admission i) true).Good := by
  have hlauncher := hs.launcher token i hi
  have hbefore : i.pc.answer = none := by rw [hpc]; rfl
  have hin : i.pc.inside = true := by rw [hpc]; rfl
  have hworking : working i.pc = true := by rw [hpc]; rfl
  have hsource : s.source = none := hlauncher.moved hworking
  by_cases hempty : s.admission.files.database.uninitialized = true
  · have hadvance : advance home liveness s.admission i = s.admission.goto i .initializing := by
      simp only [advance, hpc, hempty, if_true]
    rw [hadvance]
    refine hs.launchingSame hi hin hworking ?_
    exact hlauncher.refused rfl rfl hbefore (fun _ => hsource) rfl fun _ h => by cases h
  · rw [Bool.not_eq_true] at hempty
    cases hassert : assertCompatibleSchema (resolveReconcilerDbPath home) s.admission.files.database with
    | error error =>
      have hadvance : advance home liveness s.admission i = s.admission.goto i (.releasing (.error (failClosed error.message))) := by
        simp [advance, hpc, hempty, hassert]
      rw [hadvance]
      refine hs.launchingSame hi hin hworking ?_
      exact hlauncher.refused rfl rfl hbefore (fun h => by cases h) rfl fun _ h => by cases h
    | ok u =>
      have hadvance : advance home liveness s.admission i = s.admission.goto i (.observing 0) := by
        simp [advance, hpc, hempty, hassert]
      rw [hadvance]
      refine hs.launchingSame hi hin hworking ?_
      exact observing_ok hsource (hlauncher.fresh hbefore) (compatible_of_assert hassert)

theorem initial_good (owners : List String) : Shared.Good ⟨owners, initialDb⟩ := by
  refine ⟨.initial, initial_wf, rfl, ?_, ?_⟩ <;> intro _ h <;> cases h

theorem good_initializing (hs : s.Good) (hi : s.invocations token = some i) (hpc : i.pc = .initializing) :
    (s.launched (advance home liveness s.admission i) true).Good := by
  have hlauncher := hs.launcher token i hi
  have hbefore : i.pc.answer = none := by rw [hpc]; rfl
  have hin : i.pc.inside = true := by rw [hpc]; rfl
  have hworking : working i.pc = true := by rw [hpc]; rfl
  have hsource : s.source = none := hlauncher.moved hworking
  have hlock : s.lock = true := hs.exclusive.locked (.inl token) ((inside_of_launcher hi).trans hin)
  by_cases hempty : s.admission.files.database.uninitialized = true
  · have hadvance : advance home liveness s.admission i =
        (s.admission.withDatabase ⟨reconcilerSchemaVersion, [reconcilerStateTable], initialDb⟩).goto i (.observing 0) := by
      simp [advance, hpc, initializeSchema, hempty, pure, Except.pure]
    rw [hadvance]
    have hnot : ¬Opened s.owners s.admission.files.database := fun h => by simp [h.not_uninitialized] at hempty
    exact hs.launching s.lock (s.opened ⟨reconcilerSchemaVersion, [reconcilerStateTable], initialDb⟩) s.owners hi (.inl hsource)
      (fun _ => hlock) (.inl (.inl hin)) hs.source (recorded_opened fun _ _ => initial_good s.owners)
      (.inr ⟨hin, fun _ h => .inl h, fun h => absurd h hnot, fun _ _ h => absurd h hnot⟩)
      (observing_ok hsource (hlauncher.fresh hbefore) ⟨rfl, List.mem_cons_self⟩)
  · rw [Bool.not_eq_true] at hempty
    cases hassert : assertCompatibleSchema (resolveReconcilerDbPath home) s.admission.files.database with
    | error error =>
      have hadvance : advance home liveness s.admission i = s.admission.goto i (.releasing (.error (failClosed error.message))) := by
        simp [advance, hpc, initializeSchema, hempty, hassert, bind, Except.bind]
      rw [hadvance]
      refine hs.launchingSame hi hin hworking ?_
      exact hlauncher.refused rfl rfl hbefore (fun h => by cases h) rfl fun _ h => by cases h
    | ok u =>
      have hadvance : advance home liveness s.admission i = (s.admission.withDatabase s.admission.files.database).goto i (.observing 0) := by
        simp [advance, hpc, initializeSchema, hempty, hassert, bind, Except.bind, pure, Except.pure]
      rw [hadvance]
      refine hs.launchingSame hi hin hworking ?_
      exact observing_ok hsource (hlauncher.fresh hbefore) (compatible_of_assert hassert)

theorem good_observing (hs : s.Good) (hi : s.invocations token = some i) {attempt : Nat} (hpc : i.pc = .observing attempt) :
    (s.launched (advance home liveness s.admission i) false).Good := by
  have hlauncher := hs.launcher token i hi
  have hbefore : i.pc.answer = none := by rw [hpc]; rfl
  have hin : i.pc.inside = true := by rw [hpc]; rfl
  have hsource : s.source = none := hlauncher.moved (by rw [hpc]; rfl)
  have hlock : s.lock = true := hs.exclusive.locked (.inl token) ((inside_of_launcher hi).trans hin)
  cases hread : readReconcilerState s.admission.rows with
  | error error =>
    have hadvance : advance home liveness s.admission i = s.admission.goto i (.releasing (.error (registrationFailure error))) := by
      simp only [advance, hpc, hread]
    rw [hadvance]
    refine hs.launchingStill s.lock hi (fun _ => hlock) (.inl (.inl hin)) (fun _ h => by cases h) ?_
    exact hlauncher.refused rfl rfl hbefore (fun h => by cases h) rfl fun _ h => by cases h
  | ok observed =>
    have hadvance : advance home liveness s.admission i =
        s.admission.goto i (.deciding attempt observed (ownerIsAlive liveness observed)) := by
      simp only [advance, hpc, hread]
    rw [hadvance]
    refine hs.launchingStill s.lock hi (fun _ => hlock) (.inl (.inl hin)) (fun _ h => by cases h) ?_
    exact ⟨fun _ => hlauncher.fresh hbefore, fun _ => hsource, fun _ _ => hlauncher.compatible attempt (by rw [hpc]; rfl),
      fun _ _ _ _ => hs.readable hread, fun _ h => by cases h⟩

theorem good_deciding (hs : s.Good) (hi : s.invocations token = some i) {attempt : Nat} {observed : ReconcilerStateRecord} {alive : Bool}
    (hpc : i.pc = .deciding attempt observed alive) (hroom : ∀ row ∈ s.admission.rows, row.requestedGeneration < maxSafeInteger) :
    (s.launched (advance home liveness s.admission i) true).Good := by
  have hlauncher := hs.launcher token i hi
  have hin : i.pc.inside = true := by rw [hpc]; rfl
  have hsource : s.source = none := hlauncher.moved (by rw [hpc]; rfl)
  have hlock : s.lock = true := hs.exclusive.locked (.inl token) ((inside_of_launcher hi).trans hin)
  have hfresh : i.options.token ∉ s.owners := hlauncher.fresh (by rw [hpc]; rfl)
  have hcompatible := hlauncher.compatible attempt (by rw [hpc]; rfl)
  have hgood : Shared.Good s.admission.shared := hlauncher.deciding attempt observed alive hpc
  let call : Call := .attempt i.options observed alive
  cases hanswer : registrationAttempt i.options observed alive s.admission.rows with
  | mk answer db =>
    have hadvance : advance home liveness s.admission i = (s.admission.commit call).goto i (afterRegistration attempt answer) := by
      simp only [advance, hpc, hanswer, call]
    have hadmissible : call.Admissible s.owners s.admission.rows := ⟨⟨hfresh, hroom⟩, i.valid⟩
    have hshared : Shared.Good ⟨call.newOwner s.admission.rows ++ s.owners, call.commit s.admission.rows⟩ :=
      good_step hgood ⟨hadmissible, rfl⟩
    have hdb : call.commit s.admission.rows = db := by simp only [call, Call.commit, hanswer]
    have howners : ∀ other, other ∈ call.newOwner s.admission.rows ++ s.owners → other ∈ s.owners ∨ other = i.options.token := by
      intro other h
      rcases List.mem_append.mp h with h | h
      · exact .inr (newOwner_attempt h)
      · exact .inl h
    obtain ⟨c, hc, hrows, -, -⟩ := id hgood
    have hrows : s.admission.rows = [c.toRow] := hrows
    rw [hrows] at hanswer
    obtain ⟨row, hrow, hgrown, hcounted⟩ := attempt_counts hc hanswer
    let database : Database := { s.admission.files.database with rows := call.commit s.admission.rows }
    rw [hadvance]
    refine hs.launching s.lock (s.opened database) (call.newOwner s.admission.rows ++ s.owners) hi (.inl hsource) (fun _ => hlock)
      (.inl (.inl hin)) (fun tree _ h => by rw [hsource] at h; cases h) (recorded_opened fun _ _ => hshared)
      (.inr ⟨hin, howners, fun h => ⟨h.version, h.table, hshared⟩, fun found hfound _ => ?_⟩) ?_
    · rw [hrows] at hfound
      cases hfound
      exact ⟨row, hdb.trans hrow, hgrown⟩
    · cases answer with
      | ok result =>
        refine ⟨(fun h => by cases h), (fun h => by cases h), (fun _ h => by cases h), (fun _ _ _ h => by cases h), fun result' h => ?_⟩
        cases h
        exact ⟨⟨hsource, row, hdb.trans hrow, hcounted result rfl⟩, hcompatible.version, hcompatible.table, hshared⟩
      | error error =>
        have hrefused : ∀ text, LauncherOk (s.launching i (.releasing (.error text)) s.lock (s.opened database)
            (call.newOwner s.admission.rows ++ s.owners)) { i with pc := .releasing (.error text) } := fun text =>
          ⟨(fun h => by cases h), (fun h => by cases h), (fun _ h => by cases h), (fun _ _ _ h => by cases h), (fun _ h => by cases h)⟩
        cases error with
        | ownerChanged =>
          by_cases hnext : attempt + 1 < admissionAttempts
          · have hnone : call.newOwner s.admission.rows = [] := by
              rw [hrows]
              simp [call, Call.newOwner, Call.registration, hanswer]
            simp only [afterRegistration, hnext, if_true]
            refine observing_ok hsource ?_ ⟨hcompatible.version, hcompatible.table⟩
            show i.options.token ∉ call.newOwner s.admission.rows ++ s.owners
            rw [hnone]
            exact hfresh
          · simp only [afterRegistration, hnext, if_false]
            exact hrefused _
        | _ => exact hrefused _

theorem good_advance (hs : s.Good) (hi : s.invocations token = some i)
    (hroom : ∀ attempt observed alive, i.pc = .deciding attempt observed alive →
      ∀ row ∈ s.admission.rows, row.requestedGeneration < maxSafeInteger) :
    (s.launched (advance home liveness s.admission i) (opensDatabase i.pc)).Good := by
  cases hpc : i.pc with
  | acquiring => exact good_acquiring hs hi hpc
  | inspecting => exact good_inspecting hs hi hpc
  | opening => exact good_opening hs hi hpc
  | initializing => exact good_initializing hs hi hpc
  | observing attempt => exact good_observing hs hi hpc
  | deciding attempt observed alive => exact good_deciding hs hi hpc (hroom attempt observed alive hpc)
  | releasing answer =>
    have hlauncher := hs.launcher token i hi
    have hadvance : advance home liveness s.admission i = (s.admission.withLock false).goto i (.returned answer) := by
      simp only [advance, hpc]
    rw [hadvance]
    refine hs.launchingStill false hi (fun h => by cases h) (.inl (.inl (by rw [hpc]; rfl))) (fun result h => by rw [hpc]; exact h) ?_
    refine ⟨(fun h => by cases h), (fun h => by cases h), (fun _ h => by cases h), (fun _ _ _ h => by cases h), fun result h => ?_⟩
    exact hlauncher.answered result (by rw [hpc]; exact h)
  | returned answer =>
    rw [show advance home liveness s.admission i = s.admission by simp only [advance, hpc]]
    exact hs

end Steps

/-! ## The other events -/

/-- A launcher that is not answered does not become registered. -/
theorem registered_of_update {s s' : System} {token : String} {i : Invocation}
    (h : s'.invocations = Function.update s.invocations token (some i)) (hanswer : ∀ result, i.pc.answer ≠ some (.ok result)) :
    registered s' → registered s := by
  rintro ⟨other, found, result, hfound, hresult⟩
  rw [h] at hfound
  by_cases hne : other = token
  · subst hne
    rw [Function.update_self] at hfound
    cases hfound
    exact absurd hresult (hanswer result)
  · rw [Function.update_of_ne hne] at hfound
    exact ⟨other, found, result, hfound, hresult⟩

section Events

variable {s : System} {runtime : NodeRuntime} {home : StateHome}

theorem good_serve (hs : s.Good) {call : Call} (hregistered : registered s) (hcall : call.registration? = none)
    (hadmissible : call.Admissible s.owners s.admission.rows) : (s.launched (s.admission.commit call) true).Good := by
  obtain ⟨hsource, hopened⟩ := hs.counted hregistered
  have hshared : Shared.Good ⟨call.newOwner s.admission.rows ++ s.owners, call.commit s.admission.rows⟩ :=
    good_step hopened.good ⟨hadmissible, rfl⟩
  rw [newOwner_serve hcall] at hshared
  obtain ⟨c, hc, hrows, -, -⟩ := id hopened.good
  have hrows : s.admission.rows = [c.toRow] := hrows
  have hcounts : ∃ row, call.commit s.admission.rows = [row] ∧ c.requested ≤ row.requestedGeneration := by
    rw [hrows]
    rcases commit_cases hc call with h | ⟨c', hmove, h⟩
    · exact ⟨_, h, Int.le_refl _⟩
    · exact ⟨_, h, Int.le_of_eq (hmove.requested hcall).symm⟩
  obtain ⟨row, hrow, hle⟩ := hcounts
  let database : Database := { s.admission.files.database with rows := call.commit s.admission.rows }
  have hserved : s.launched (s.admission.commit call) true = { s with target := s.opened database } := by
    simp only [System.launched, if_true]
    rw [show (s.admission.commit call).owners = s.owners from congrArg (· ++ s.owners) (newOwner_serve hcall s.admission.rows)]
    rfl
  rw [hserved]
  have hnone : ∀ (k : Nat) (pc : MigrationPc), s.migrations[k]? = some pc → MigrationOk { s with target := s.opened database } pc := by
    intro k pc hk
    have hmigration := hs.migration k pc hk
    cases pc with
    | checkpointing => exact absurd hregistered (not_registered_of_source hs hmigration.1)
    | moving => exact absurd hregistered (not_registered_of_source hs hmigration.1)
    | validating => exact absurd hregistered hmigration.2.2
    | restoring error => exact absurd hregistered hmigration.2.2
    | finalizing rollbackRequired result =>
      cases rollbackRequired with
      | true => exact absurd hregistered hmigration.2.2
      | false => trivial
    | _ => trivial
  refine ⟨.inl hsource, hs.exclusive.still fun party => rfl, hs.keyed, hs.source, recorded_opened fun _ _ => hshared, ?_, hnone⟩
  intro token i hi
  have hlauncher := hs.launcher token i hi
  refine ⟨hlauncher.fresh, hlauncher.moved, fun attempt h => ?_, fun _ _ _ _ => hshared, fun result h => ⟨?_, ?_⟩⟩
  · have hcompatible := hlauncher.compatible attempt h
    exact ⟨hcompatible.version, hcompatible.table⟩
  · refine (hlauncher.answered result h).1.congr rfl fun found hfound => ⟨row, hrow, ?_⟩
    rw [hrows] at hfound
    cases hfound
    exact hle
  · exact ⟨hopened.version, hopened.table, hshared⟩

theorem good_start (hs : s.Good) {options : RegisterReconciliationOptions} (valid : assertRegistrationOptions options = .ok ())
    (hfresh : options.token ∉ s.owners) (hnew : s.invocations options.token = none) :
    System.Good { s with invocations := Function.update s.invocations options.token (some ⟨options, valid, .acquiring⟩) } := by
  have hcases : ∀ token i, Function.update s.invocations options.token (some ⟨options, valid, .acquiring⟩) token = some i →
      s.invocations token = some i ∨ (token = options.token ∧ i = ⟨options, valid, .acquiring⟩) := by
    intro token i hi
    by_cases hsame : token = options.token
    · subst hsame
      rw [Function.update_self] at hi
      exact .inr ⟨rfl, (Option.some.inj hi).symm⟩
    · rw [Function.update_of_ne hsame] at hi
      exact .inl hi
  refine ⟨hs.undivided, hs.exclusive.still fun party => ?_, fun token i hi => ?_, hs.source, hs.target, fun token i hi => ?_,
    fun k pc hk => (hs.migration k pc hk).congr rfl rfl (registered_of_update rfl fun _ h => by cases h)⟩
  · cases party with
    | inl token =>
      by_cases hsame : token = options.token
      · subst hsame
        simp [System.inside, hnew, AdmissionPc.inside]
      · simp [System.inside, Function.update_of_ne hsame]
    | inr k => rfl
  · rcases hcases token i hi with hi | ⟨rfl, rfl⟩
    · exact hs.keyed token i hi
    · rfl
  · rcases hcases token i hi with hi | ⟨rfl, rfl⟩
    · exact (hs.launcher token i hi).congr rfl rfl rfl
    · exact ⟨fun _ => hfresh, (fun h => by cases h), (fun _ h => by cases h), (fun _ _ _ h => by cases h), (fun _ h => by cases h)⟩

theorem good_rerun (hs : s.Good) : System.Good { s with migrations := s.migrations ++ [.acquiring] } := by
  have hcases : ∀ (k : Nat) pc, (s.migrations ++ [.acquiring])[k]? = some pc → s.migrations[k]? = some pc ∨ pc = .acquiring := by
    intro k pc hk
    rcases Nat.lt_or_ge k s.migrations.length with hlt | hge
    · rw [List.getElem?_append_left hlt] at hk
      exact .inl hk
    · rw [List.getElem?_append_right hge] at hk
      exact .inr (List.mem_singleton.mp (List.mem_of_getElem? hk))
  refine ⟨hs.undivided, hs.exclusive.still fun party => ?_, hs.keyed, hs.source, hs.target,
    fun token i hi => (hs.launcher token i hi).congr rfl rfl rfl, fun k pc hk => ?_⟩
  · cases party with
    | inl token => rfl
    | inr k =>
      rcases Nat.lt_or_ge k s.migrations.length with hlt | hge
      · simp [System.inside, List.getElem?_append_left hlt]
      · rcases Nat.eq_or_lt_of_le hge with rfl | hgt
        · simp [System.inside, MigrationPc.inside]
        · have hbeyond : (s.migrations ++ [MigrationPc.acquiring])[k]? = none := by
            rw [List.getElem?_eq_none_iff, List.length_append, List.length_singleton]
            omega
          simp [System.inside, hbeyond, List.getElem?_eq_none_iff.mpr hge]
  · rcases hcases k pc hk with hk | rfl
    · exact (hs.migration k pc hk).congr rfl rfl id
    · trivial

theorem good_event {s t : System} {event : Event} (hs : s.Good) (h : (migrationMachine runtime home).step s event t) : t.Good := by
  have h : MigrationStep runtime home s event t := h
  cases h with
  | start options valid hfresh hnew => exact good_start hs valid hfresh hnew
  | advance token liveness i hi hroom => exact good_advance hs hi hroom
  | serve call hregistered hcall hadmissible => exact good_serve hs hregistered hcall hadmissible
  | rerun => exact good_rerun hs
  | migrate k view pc hk => exact good_migrate hs hk

theorem good_initial (h : (migrationMachine runtime home).init s) : s.Good := by
  obtain ⟨-, hundivided, hsource, htarget, hnone, hlaunchers⟩ := h
  have hout : ∀ party, s.inside party = false := by
    intro party
    cases party with
    | inl token =>
      cases hi : s.invocations token with
      | none => simp [System.inside, hi]
      | some i =>
        obtain ⟨-, result, hpc, -⟩ := hlaunchers token i hi
        simp [System.inside, hi, hpc, AdmissionPc.inside]
    | inr k => simp [System.inside, hnone]
  refine ⟨hundivided, .empty hout, fun token i hi => (hlaunchers token i hi).1, hsource, htarget, fun token i hi => ?_,
    fun k pc hk => by simp [hnone] at hk⟩
  obtain ⟨-, result, hpc, hcounted, hopened⟩ := hlaunchers token i hi
  refine ⟨?_, ?_, ?_, ?_, fun result' h => ?_⟩
  · intro h
    rw [hpc] at h
    cases h
  · intro h
    rw [hpc] at h
    cases h
  · intro _ h
    rw [hpc] at h
    cases h
  · intro _ _ _ h
    rw [hpc] at h
    cases h
  · rw [hpc] at h
    cases h
    exact ⟨hcounted, hopened⟩

theorem good_migrationRun {labels : List Event} {s : System} (h : Run (migrationMachine runtime home) labels s) : s.Good :=
  Run.invariant (I := System.Good) (fun _ h => good_initial h) (fun _ _ _ hs hstep => good_event hs hstep) h

end Events

/-! ## Over every run -/

section Runs

variable {runtime : NodeRuntime} {home : StateHome}

/-- The state is at one root at most, and a launcher that was answered finds its generation
    counted in the target's database, which every coordinator call left as it should. The steps
    are those of `MigrationStep`, where a registration finds the request counter below
    `Number.MAX_SAFE_INTEGER`. -/
theorem admissions_survive {labels : List Event} {s : System} (h : Run (migrationMachine runtime home) labels s) :
    (s.source = none ∨ s.target = none) ∧ ∀ token i result, s.invocations token = some i → i.pc.answer = some (.ok result) →
      s.source = none ∧ ∃ row state, s.admission.rows = [row] ∧ result.generation ≤ row.requestedGeneration ∧
        readReconcilerState s.admission.rows = .ok state ∧ RowInvariant row := by
  have hs := good_migrationRun h
  refine ⟨hs.undivided, fun token i result hi hanswer => ?_⟩
  obtain ⟨⟨hsource, row, hrow, hle⟩, hopened⟩ := (hs.launcher token i hi).answered result hanswer
  obtain ⟨c, hc, hrows, -, -⟩ := hopened.good
  have hrows : s.admission.rows = [c.toRow] := hrows
  rw [hrows] at hrow
  cases hrow
  exact ⟨hsource, c.toRow, c.record, hrows, hle, by rw [hrows]; exact Coordinator.read_toRow hc, hc.rowInvariant⟩

/-- While a migration may still be undone the lock is held, no launcher is between it and its
    answer, and none was answered a registration before. -/
theorem unopened_while_undecided {labels : List Event} {s : System} (h : Run (migrationMachine runtime home) labels s) {k : Nat}
    {pc : MigrationPc} (hk : s.migrations[k]? = some pc) (hundecided : pc.undecided = true) :
    s.lock = true ∧ ∀ token i, s.invocations token = some i →
      i.pc = .acquiring ∨ ∃ message, i.pc = .returned (.error message) := by
  have hs := good_migrationRun h
  have hin : pc.inside = true ∧ ¬registered s := by
    have hmigration := hs.migration k pc hk
    cases pc with
    | validating => exact ⟨rfl, hmigration.2.2⟩
    | restoring error => exact ⟨rfl, hmigration.2.2⟩
    | finalizing rollbackRequired result =>
      cases rollbackRequired with
      | true => exact ⟨rfl, hmigration.2.2⟩
      | false => cases hundecided
    | _ => cases hundecided
  refine ⟨hs.exclusive.locked (.inr k) ((inside_of_migration hk).trans hin.1), fun token i hi => ?_⟩
  have hout := hs.launcher_outside ((inside_of_migration hk).trans hin.1) hi (by simp)
  cases hpc : i.pc with
  | acquiring => exact .inl rfl
  | returned answer =>
    cases answer with
    | error message => exact .inr ⟨message, rfl⟩
    | ok result => exact absurd ⟨token, i, result, hi, by rw [hpc]; rfl⟩ hin.2
  | _ => simp [hpc, AdmissionPc.inside] at hout

/-! ## One migration -/

def AtSource (tree : StateTree) (s : System) : Prop := s.source = some tree ∧ s.target = none

def AtTarget (tree : StateTree) (s : System) : Prop := s.source = none ∧ s.target = some tree

/-- What the checkpoint has found. -/
def Idle (tree : StateTree) : Prop :=
  ∀ file, tree.databaseFile = some file → Compatible file.database ∧ ∃ state,
    readReconcilerState file.database.rows = .ok state ∧ state.ownerToken = none ∧ state.requestedGeneration = state.completedGeneration

/-- On the way from `s` to `t` migration `k` was at its rename back, or at its listing, and the
    answer it got there was a failure. -/
def Faulted (runtime : NodeRuntime) (home : StateHome) (k : Nat) (s : System) (labels : List Event) (t : System) : Prop :=
  ∃ before view after u v, labels = before ++ .migrate k view :: after ∧ Steps (migrationMachine runtime home) s before u ∧
    MigrationStep runtime home u (.migrate k view) v ∧ Steps (migrationMachine runtime home) v after t ∧
    (((∃ message, u.migrations[k]? = some (.restoring message)) ∧ view.restore ≠ .ok ()) ∨
      (u.migrations[k]? = some .listing ∧ view.listing ≠ .ok ()))

section Tree

variable (runtime : NodeRuntime) (home : StateHome) (tree : StateTree) (k : Nat) (start : System) (labels : List Event)

def Resolved (s : System) : MigrationResult → Prop
  | .error _ => AtSource tree s ∨ (AtTarget tree s ∧ Faulted runtime home k start labels s)
  | .ok outcome => outcome = .migrated tree.names ∧ AtTarget tree s ∧ Idle tree

/-- Where the tree of migration `k` is, at each of its points. -/
def Placed (s : System) : MigrationPc → Prop
  | .acquiring => False
  | .classifying | .checkpointing => AtSource tree s
  | .moving => AtSource tree s ∧ Idle tree
  | .validating | .listing => AtTarget tree s ∧ Idle tree
  | .restoring _ => AtTarget tree s
  | .finalizing true (.error _) => AtTarget tree s ∧ Faulted runtime home k start labels s
  | .finalizing true (.ok _) => False
  | .finalizing false result | .releasing result => Resolved runtime home tree k start labels s result
  | .returned _ => True

structure Carried (s : System) (pc : MigrationPc) : Prop where
  reached : Steps (migrationMachine runtime home) start labels s
  here : s.migrations[k]? = some pc
  placed : Placed runtime home tree k start labels s pc
  unregistered : pc.inside = true → ¬registered s

end Tree

theorem assertIdle_eq_ok {rows : Db} (h : assertIdleReconcilerState rows = .ok ()) :
    ∃ state, readReconcilerState rows = .ok state ∧ state.ownerToken = none ∧ state.requestedGeneration = state.completedGeneration := by
  unfold assertIdleReconcilerState at h
  split at h
  · cases h
  · rename_i state hread
    split at h
    · cases h
    · rename_i howner
      split at h
      · cases h
      · rename_i hgenerations
        exact ⟨state, hread, by_contra fun hne => howner (.inl hne), by_contra hgenerations⟩

theorem openInitialized_eq_ok {dbPath : String} {connection : Except String Unit} {database : Database}
    (h : openInitialized dbPath connection database = .ok ()) : Compatible database := by
  unfold openInitialized at h
  split at h
  · cases h
  · split at h
    · cases h
    · rename_i hassert
      exact compatible_of_assert hassert

theorem idle_of_checkpoint {dbPath : String} {tree : StateTree} {view : MigrationView}
    (h : checkpointReconcilerDatabase dbPath tree view = .ok ()) : Idle tree := by
  intro file hfile
  simp only [checkpointReconcilerDatabase, hfile, checkpointFile, bind_eq_ok, guard_eq_ok] at h
  obtain ⟨-, _, -, _, hopen, _, hidle, -⟩ := h
  exact ⟨openInitialized_eq_ok hopen, assertIdle_eq_ok hidle⟩

variable {tree : StateTree} {k : Nat} {labels : List Event} {start s t : System} {event : Event}

theorem Faulted.later (h : Faulted runtime home k start labels s) (hstep : MigrationStep runtime home s event t) :
    Faulted runtime home k start (labels ++ [event]) t := by
  obtain ⟨before, view, after, u, v, rfl, hbefore, hfault, hafter, hview⟩ := h
  exact ⟨before, view, after ++ [event], u, v, by simp, hbefore, hfault, .snoc hafter hstep, hview⟩

theorem Placed.later {pc : MigrationPc} (h : Placed runtime home tree k start labels s pc) (hstep : MigrationStep runtime home s event t)
    (hsource : t.source = s.source) (htarget : t.target = s.target) : Placed runtime home tree k start (labels ++ [event]) t pc := by
  have hat : AtSource tree s → AtSource tree t := fun h => ⟨hsource.trans h.1, htarget.trans h.2⟩
  have hto : AtTarget tree s → AtTarget tree t := fun h => ⟨hsource.trans h.1, htarget.trans h.2⟩
  have hresolved : ∀ result, Resolved runtime home tree k start labels s result →
      Resolved runtime home tree k start (labels ++ [event]) t result := by
    intro result h
    cases result with
    | error message => exact h.elim (fun h => .inl (hat h)) (fun h => .inr ⟨hto h.1, h.2.later hstep⟩)
    | ok outcome => exact ⟨h.1, hto h.2.1, h.2.2⟩
  cases pc with
  | acquiring => exact h
  | classifying => exact hat h
  | checkpointing => exact hat h
  | moving => exact ⟨hat h.1, h.2⟩
  | validating => exact ⟨hto h.1, h.2⟩
  | listing => exact ⟨hto h.1, h.2⟩
  | restoring message => exact hto h
  | finalizing rollbackRequired result =>
    cases rollbackRequired with
    | false => exact hresolved result h
    | true =>
      cases result with
      | error message => exact ⟨hto h.1, h.2.later hstep⟩
      | ok outcome => exact h
  | releasing result => exact hresolved result h
  | returned result => trivial

/-- A launcher outside of admission finds the lock taken. -/
theorem refused_while_locked {i : Invocation} {liveness : Liveness} (hlock : s.lock = true)
    (hout : i.pc.inside = false) :
    advance home liveness s.admission i = s.admission ∨
      ∃ message, advance home liveness s.admission i = s.admission.goto i (.returned (.error message)) := by
  cases hpc : i.pc with
  | acquiring =>
    cases hacquired : acquireStateCutoverLock home.applicationStateDirectory s.lock with
    | ok taken =>
      obtain ⟨hfree, -⟩ := acquireStateCutoverLock_eq_ok hacquired
      rw [hlock] at hfree
      cases hfree
    | error message =>
      refine .inr ⟨failClosed message, ?_⟩
      simp only [advance, hpc, show s.admission.files.stateCutoverLock = s.lock from rfl, hacquired]
  | returned answer => exact .inl (by simp only [advance, hpc])
  | _ => simp [hpc, AdmissionPc.inside] at hout

/-- Another migration outside finds it taken too. -/
theorem migrate_while_locked (view : MigrationView) (j : Nat) {pc : MigrationPc} (hlock : s.lock = true) (hout : pc.inside = false) :
    migrate runtime home view s j pc = s ∨ ∃ result, migrate runtime home view s j pc = s.goto j (.returned result) := by
  cases pc with
  | acquiring =>
    simp only [migrate]
    split
    · exact .inr ⟨_, rfl⟩
    · split
      · exact .inr ⟨_, rfl⟩
      · rename_i taken hacquired
        obtain ⟨hfree, -⟩ := acquireStateCutoverLock_eq_ok hacquired
        rw [hlock] at hfree
        cases hfree
  | returned result => exact .inl rfl
  | _ => cases hout

/-- What the others do while a migration is inside and nobody is registered. -/
theorem others_still (hs : s.Good) {pc : MigrationPc} (hk : s.migrations[k]? = some pc) (hin : pc.inside = true)
    (hnone : ¬registered s) (h : MigrationStep runtime home s event t) (hother : ∀ view, event ≠ .migrate k view) :
    t.source = s.source ∧ t.target = s.target ∧ t.migrations[k]? = some pc ∧ (registered t → registered s) := by
  have hlock : s.lock = true := hs.exclusive.locked (.inr k) ((inside_of_migration hk).trans hin)
  cases h with
  | start options valid hfresh hnew => exact ⟨rfl, rfl, hk, registered_of_update rfl fun _ h => by cases h⟩
  | advance token liveness i hi hroom =>
    have hout := hs.launcher_outside ((inside_of_migration hk).trans hin) hi (by simp)
    have hclosed : opensDatabase i.pc = false := by
      cases hpc : i.pc <;> simp [hpc, AdmissionPc.inside] at hout <;> rfl
    rw [hclosed]
    rcases refused_while_locked hlock hout with h | ⟨message, h⟩
    · rw [h]
      exact ⟨rfl, rfl, hk, id⟩
    · rw [h]
      exact ⟨rfl, rfl, hk, registered_of_update rfl fun _ h => by cases h⟩
  | serve call hregistered => exact absurd hregistered hnone
  | rerun =>
    refine ⟨rfl, rfl, ?_, id⟩
    rw [List.getElem?_append_left (List.getElem?_eq_some_iff.mp hk).1]
    exact hk
  | migrate j view found hj =>
    have hne : j ≠ k := fun h => hother view (by rw [h])
    have hout := hs.migration_outside ((inside_of_migration hk).trans hin) hj (by simpa using hne)
    rcases migrate_while_locked view j hlock hout with h | ⟨result, h⟩
    · rw [h]
      exact ⟨rfl, rfl, hk, id⟩
    · rw [h]
      exact ⟨rfl, rfl, (List.getElem?_set_ne hne).trans hk, id⟩

/-- The migration's own step. -/
theorem Placed.migrate {pc : MigrationPc} {view : MigrationView} (hreached : Steps (migrationMachine runtime home) start labels s)
    (hk : s.migrations[k]? = some pc) (hin : pc.inside = true) (h : Placed runtime home tree k start labels s pc) :
    ∃ pc', (StateMigration.migrate runtime home view s k pc).migrations[k]? = some pc' ∧
      Placed runtime home tree k start (labels ++ [.migrate k view]) (StateMigration.migrate runtime home view s k pc) pc' := by
  have hstep : MigrationStep runtime home s (.migrate k view) (StateMigration.migrate runtime home view s k pc) := .migrate k view pc hk
  have hfault : ((∃ message, pc = .restoring message) ∧ view.restore ≠ .ok ()) ∨ (pc = .listing ∧ view.listing ≠ .ok ()) →
      Faulted runtime home k start (labels ++ [.migrate k view]) (StateMigration.migrate runtime home view s k pc) := by
    rintro (⟨⟨message, rfl⟩, hrestore⟩ | ⟨rfl, hlisting⟩)
    · exact ⟨labels, view, [], s, _, rfl, hreached, hstep, .nil, .inl ⟨⟨message, hk⟩, hrestore⟩⟩
    · exact ⟨labels, view, [], s, _, rfl, hreached, hstep, .nil, .inr ⟨hk, hlisting⟩⟩
  have hset : ∀ pc', (s.migrations.set k pc')[k]? = some pc' := fun pc' =>
    List.getElem?_set_self (List.getElem?_eq_some_iff.mp hk).1
  cases pc with
  | acquiring => cases hin
  | classifying =>
    simp only [StateMigration.migrate]
    split
    · exact ⟨_, hset _, .inl h⟩
    · rename_i outcome hclassified
      -- a root stands at the source alone
      simp only [classify, bind_eq_ok, h.1, h.2] at hclassified
      obtain ⟨-, -, -, -, hclassified⟩ := hclassified
      cases hclassified
    · exact ⟨_, hset _, h⟩
  | checkpointing =>
    simp only [StateMigration.migrate]
    split
    · exact ⟨_, hset _, .inl h⟩
    · rename_i hcheckpoint
      rw [h.1] at hcheckpoint
      exact ⟨_, hset _, h, idle_of_checkpoint hcheckpoint⟩
  | moving =>
    simp only [StateMigration.migrate]
    split
    · exact ⟨_, hset _, .inl h.1⟩
    · exact ⟨_, hset _, ⟨rfl, h.1.1⟩, h.2⟩
  | validating =>
    simp only [StateMigration.migrate]
    split
    · exact ⟨_, hset _, h.1⟩
    · exact ⟨_, hset _, h⟩
  | restoring message =>
    simp only [StateMigration.migrate]
    split
    · rename_i error hrestore
      have hfailed := hfault (.inl ⟨⟨message, rfl⟩, by rw [hrestore]; exact fun h => by cases h⟩)
      simp only [StateMigration.migrate, hrestore] at hfailed
      exact ⟨_, hset _, h, hfailed⟩
    · exact ⟨_, hset _, .inl ⟨h.2, rfl⟩⟩
  | listing =>
    simp only [StateMigration.migrate]
    split
    · rename_i error hlisting
      have hfailed := hfault (.inr ⟨rfl, by rw [hlisting]; exact fun h => by cases h⟩)
      simp only [StateMigration.migrate, hlisting] at hfailed
      exact ⟨_, hset _, .inr ⟨h.1, hfailed⟩⟩
    · refine ⟨_, hset _, ?_, h.1, h.2⟩
      rw [h.1.2]
      rfl
  | finalizing rollbackRequired result =>
    simp only [StateMigration.migrate] at hstep ⊢
    cases rollbackRequired with
    | false =>
      rw [if_neg (fun h => by cases h.1)] at hstep ⊢
      have hresult : Placed runtime home tree k start labels s (.releasing result) := h
      exact ⟨_, hset _, hresult.later hstep rfl rfl⟩
    | true =>
      cases result with
      | ok outcome => exact h.elim
      | error message =>
        split
        · exact ⟨_, hset _, .inl ⟨h.1.2, rfl⟩⟩
        · rename_i hkept
          rw [if_neg hkept] at hstep
          exact ⟨_, hset _, .inr ⟨h.1, h.2.later hstep⟩⟩
  | releasing result => exact ⟨_, hset _, trivial⟩
  | returned result => cases hin

theorem migrate_invocations {view : MigrationView} {pc : MigrationPc} :
    (migrate runtime home view s k pc).invocations = s.invocations := by
  cases pc <;> simp only [migrate] <;> (repeat' split) <;> rfl

theorem migrate_migrations (view : MigrationView) (pc : MigrationPc) :
    (migrate runtime home view s k pc).migrations = s.migrations ∨
      ∃ pc', (migrate runtime home view s k pc).migrations = s.migrations.set k pc' := by
  cases pc <;> simp only [migrate] <;> (repeat' split) <;> first | exact .inr ⟨_, rfl⟩ | exact .inl trivial

theorem returned_stays {result : MigrationResult} (hk : s.migrations[k]? = some (.returned result))
    (h : MigrationStep runtime home s event t) : t.migrations[k]? = some (.returned result) := by
  cases h with
  | start options valid hfresh hnew => exact hk
  | advance token liveness i hi hroom => exact hk
  | serve call hregistered => exact hk
  | rerun =>
    rw [List.getElem?_append_left (List.getElem?_eq_some_iff.mp hk).1]
    exact hk
  | migrate j view found hj =>
    by_cases hne : j = k
    · subst hne
      rw [hj] at hk
      cases hk
      exact hj
    · rcases migrate_migrations (s := s) (k := j) view found with h | ⟨pc', h⟩
      · rw [h]
        exact hk
      · rw [h, List.getElem?_set_ne hne]
        exact hk

theorem carried_step {pc : MigrationPc} (hs : s.Good) (hcarried : Carried runtime home tree k start labels s pc)
    (h : MigrationStep runtime home s event t) : ∃ pc', Carried runtime home tree k start (labels ++ [event]) t pc' := by
  obtain ⟨hreached, hk, hplaced, hnone⟩ := hcarried
  have hreached' : Steps (migrationMachine runtime home) start (labels ++ [event]) t := .snoc hreached h
  by_cases hin : pc.inside = true
  · by_cases hown : ∃ view, event = .migrate k view
    · obtain ⟨view, rfl⟩ := hown
      cases h with
      | migrate _ _ found hfound =>
        rw [hk] at hfound
        cases hfound
        obtain ⟨pc', hk', hplaced'⟩ : ∃ pc', (StateMigration.migrate runtime home view s k pc).migrations[k]? = some pc' ∧
            Placed runtime home tree k start (labels ++ [.migrate k view]) (StateMigration.migrate runtime home view s k pc) pc' :=
          hplaced.migrate hreached hk hin
        refine ⟨pc', hreached', hk', hplaced', fun _ hregistered => hnone hin ?_⟩
        unfold registered at hregistered ⊢
        rwa [migrate_invocations] at hregistered
    · obtain ⟨hsource, htarget, hk', hregistered⟩ := others_still hs hk hin (hnone hin) h fun view heq => hown ⟨view, heq⟩
      exact ⟨pc, hreached', hk', hplaced.later h hsource htarget, fun hin hr => hnone hin (hregistered hr)⟩
  · cases pc with
    | acquiring => exact hplaced.elim
    | returned result => exact ⟨.returned result, hreached', returned_stays hk h, trivial, fun h => by cases h⟩
    | _ => exact absurd rfl hin

/-- An idle database at the target is open to the launchers, with nothing left to do. -/
theorem System.Good.settled (hs : s.Good) (htarget : AtTarget tree s) (hidle : Idle tree) {file : DatabaseFile}
    (hfile : tree.databaseFile = some file) : Opened s.owners file.database ∧ RowSettled file.database.rows := by
  obtain ⟨hcompatible, state, hread, howner, hgenerations⟩ := hidle file hfile
  have hdatabase : tree.database = file.database := by simp [StateTree.database, hfile]
  have hshared := hs.target tree state htarget.2 (by rw [hdatabase]; exact hread)
  rw [hdatabase] at hshared
  refine ⟨⟨hcompatible.version, hcompatible.table, hshared⟩, state, hread, howner, ?_, hgenerations⟩
  obtain ⟨c, hc, hrows, -, -⟩ := hshared
  have hrows : file.database.rows = [c.toRow] := hrows
  rw [hrows, Coordinator.read_toRow hc] at hread
  cases hread
  cases hexecution : c.execution with
  | none => simp [Coordinator.record, hexecution]
  | some execution =>
    obtain ⟨-, -, o, ho, -⟩ := hc.executionOk execution hexecution
    simp [Coordinator.record, ho] at howner

/-- From the checks of a migration to its release of the lock, in any company: if it fails the
    tree it found is whole where it was, or at the target when the rename back or the listing
    failed; if it does not, the whole tree is at the target, its database readable and idle. -/
theorem migration_all_or_nothing {before after : List Event} {s t : System} (h : Run (migrationMachine runtime home) before s)
    {k : Nat} {tree : StateTree} (hk : s.migrations[k]? = some .classifying) (hsource : s.source = some tree)
    (hsteps : Steps (migrationMachine runtime home) s after t) {result : MigrationResult}
    (hreleasing : t.migrations[k]? = some (.releasing result)) :
    (∃ message, result = .error message ∧ (AtSource tree t ∨ (AtTarget tree t ∧ Faulted runtime home k s after t))) ∨
      (result = .ok (.migrated tree.names) ∧ AtTarget tree t ∧ ∀ file, tree.databaseFile = some file →
        Opened t.owners file.database ∧ RowSettled file.database.rows) := by
  have hgood := good_migrationRun h
  have htarget : s.target = none := by
    rcases hgood.undivided with hnone | hnone
    · rw [hsource] at hnone
      cases hnone
    · exact hnone
  have hstart : Carried runtime home tree k s [] s .classifying := by
    refine ⟨.nil, hk, ⟨hsource, htarget⟩, fun _ => not_registered_of_source hgood ?_⟩
    rw [hsource]
    rfl
  have hrun : ∀ {labels : List Event} {u : System}, Steps (migrationMachine runtime home) s labels u →
      u.Good ∧ ∃ pc, Carried runtime home tree k s labels u pc := by
    intro labels u hsteps
    induction hsteps with
    | nil => exact ⟨hgood, _, hstart⟩
    | snoc _ hstep ih =>
      obtain ⟨hu, pc, hcarried⟩ := ih
      exact ⟨good_event hu hstep, carried_step hu hcarried hstep⟩
  obtain ⟨ht, pc, -, hhere, hplaced, -⟩ := hrun hsteps
  rw [hreleasing] at hhere
  cases hhere
  cases result with
  | error message => exact .inl ⟨message, rfl, hplaced⟩
  | ok outcome =>
    obtain ⟨rfl, hat, hidle⟩ := hplaced
    exact .inr ⟨rfl, hat, fun file hfile => ht.settled hat hidle hfile⟩

end Runs

/-! ## A migration and the launcher after it -/

def sampleRuntime : NodeRuntime := ⟨fun _ => "", fun _ _ => 0, fun _ => none, fun _ => true⟩

def sampleDatabase : Database := ⟨reconcilerSchemaVersion, [reconcilerStateTable], initialDb⟩

def sampleTree : StateTree := ⟨true, some ⟨.ok .none, some ⟨true, sampleDatabase⟩⟩, ["node-cutover-closures.json"]⟩

/-- The preflight's sight of that database. -/
def sampleSight : DatabaseSight :=
  ⟨.regular, fun _ => false, .ok "1:2:4096", .ok (), .ok (reconcilerSchemaVersion, [reconcilerStateTable]), .ok initialDb⟩

def sampleView : MigrationView where
  mainFile := sampleSight
  connection := .ok ()
  busy := some 0
  transientFiles := []
  rename := .ok ()
  processes := ⟨fun _ => none, fun _ => "absent"⟩
  stateDirectory := ⟨.directory, [("reconciler.sqlite", ⟨1, 2⟩)], fun _ => ⟨.regular, 0, []⟩, 0⟩
  sights := ⟨sampleSight, sampleSight, sampleSight⟩
  nowEpochMs := 0
  restore := .ok ()
  listing := .ok ()
  removed := true

def sampleSystem : System := ⟨false, some sampleTree, none, [], fun _ => none, []⟩

/-- What an event does, where it can happen. -/
def happen (s : System) : Event → Option System
  | .start options =>
    if valid : assertRegistrationOptions options = .ok () then
      if options.token ∉ s.owners ∧ (s.invocations options.token).isNone = true then
        some { s with invocations := Function.update s.invocations options.token (some ⟨options, valid, .acquiring⟩) }
      else none
    else none
  | .advance token liveness => (s.invocations token).bind fun i =>
      if ∀ row ∈ s.admission.rows, row.requestedGeneration < maxSafeInteger then
        some (s.launched (advance userHome liveness s.admission i) (opensDatabase i.pc))
      else none
  | .serve _ => none
  | .rerun => some { s with migrations := s.migrations ++ [.acquiring] }
  | .migrate k view => s.migrations[k]?.map (migrate sampleRuntime userHome view s k)

theorem happen_step {s t : System} {event : Event} (h : happen s event = some t) :
    (migrationMachine sampleRuntime userHome).step s event t := by
  cases event with
  | start options =>
    simp only [happen] at h
    split at h
    · rename_i valid
      split at h
      · rename_i hfresh
        cases h
        exact .start options valid hfresh.1 (Option.isNone_iff_eq_none.mp hfresh.2)
      · cases h
    · cases h
  | advance token liveness =>
    obtain ⟨i, hi, h⟩ := Option.bind_eq_some_iff.mp h
    split at h
    · rename_i hroom
      cases h
      exact .advance token liveness i hi fun _ _ _ _ => hroom
    · cases h
  | serve call => cases h
  | rerun =>
    cases h
    exact .rerun
  | migrate k view =>
    obtain ⟨pc, hk, rfl⟩ := Option.map_eq_some_iff.mp h
    exact .migrate k view pc hk

theorem sampleSystem_initial : (migrationMachine sampleRuntime userHome).init sampleSystem := by
  refine ⟨rfl, .inr rfl, (fun tree state htree _ => ?_), (fun _ _ h => by cases h), rfl, fun _ _ h => by cases h⟩
  cases htree
  exact initial_good []

/-- The steps of one migration that goes through, and of a launcher that comes after it. -/
def sampleMigration (n : Nat) : List Event := .rerun :: List.replicate n (.migrate 0 sampleView)

def sampleAdmission : List Event :=
  .start (contenderOptions "launcher-a") :: List.replicate 6 (.advance "launcher-a" ⟨fun _ => false, fun _ => none⟩)

theorem admissions_survive_migrated : ∃ s : System, s.source = none ∧ ∃ row state, s.admission.rows = [row] ∧
    1 ≤ row.requestedGeneration ∧ readReconcilerState s.admission.rows = .ok state ∧ RowInvariant row := by
  have hpc : ((follow happen sampleSystem (sampleMigration 9 ++ sampleAdmission)).bind fun s =>
      (s.invocations "launcher-a").map (·.pc)) = some (.returned (.ok (.owner 1 0 false none false))) := by decide +kernel
  obtain ⟨s, hfollow, hpc⟩ := Option.bind_eq_some_iff.mp hpc
  obtain ⟨i, hi, hpc⟩ := Option.map_eq_some_iff.mp hpc
  have hrun : Run (migrationMachine sampleRuntime userHome) _ s := ⟨sampleSystem, sampleSystem_initial, follow_steps happen_step hfollow⟩
  exact ⟨s, (admissions_survive hrun).2 "launcher-a" i (.owner 1 0 false none false) hi (by rw [hpc]; rfl)⟩

theorem unopened_while_undecided_validating : ∃ s : System, s.lock = true ∧ ∀ token i, s.invocations token = some i →
    i.pc = .acquiring ∨ ∃ message, i.pc = .returned (.error message) := by
  have hpc : ((follow happen sampleSystem (sampleMigration 4 ++ sampleAdmission)).bind fun s => s.migrations[0]?) =
      some .validating := by decide +kernel
  obtain ⟨s, hfollow, hpc⟩ := Option.bind_eq_some_iff.mp hpc
  have hrun : Run (migrationMachine sampleRuntime userHome) _ s := ⟨sampleSystem, sampleSystem_initial, follow_steps happen_step hfollow⟩
  exact ⟨s, unopened_while_undecided hrun hpc rfl⟩

def MigrationPc.released : MigrationPc → Option MigrationResult
  | .releasing result => some result
  | _ => none

theorem migration_all_or_nothing_moved : ∃ (s t : System) (result : MigrationResult),
    (∃ message, result = .error message ∧ (AtSource sampleTree t ∨
        (AtTarget sampleTree t ∧ Faulted sampleRuntime userHome 0 s (List.replicate 6 (.migrate 0 sampleView)) t))) ∨
      (result = .ok (.migrated sampleTree.names) ∧ AtTarget sampleTree t ∧ ∀ file, sampleTree.databaseFile = some file →
        Opened t.owners file.database ∧ RowSettled file.database.rows) := by
  have hbefore : ((follow happen sampleSystem (sampleMigration 1)).map fun s => (s.migrations[0]?, s.source)) =
      some (some .classifying, some sampleTree) := by decide +kernel
  obtain ⟨s, hfollow, hs⟩ := Option.map_eq_some_iff.mp hbefore
  have hafter : (((follow happen sampleSystem (sampleMigration 1)).bind fun s =>
      follow happen s (List.replicate 6 (.migrate 0 sampleView))).bind fun t =>
        t.migrations[0]?.bind (·.released)).isSome = true := by decide +kernel
  rw [hfollow] at hafter
  obtain ⟨result, hresult⟩ := Option.isSome_iff_exists.mp hafter
  obtain ⟨t, ht, hresult⟩ := Option.bind_eq_some_iff.mp hresult
  obtain ⟨pc, hpc, hreleased⟩ := Option.bind_eq_some_iff.mp hresult
  have hreleasing : t.migrations[0]? = some (.releasing result) := by
    cases pc with
    | releasing found =>
      cases hreleased
      exact hpc
    | _ => cases hreleased
  have hrun : Run (migrationMachine sampleRuntime userHome) _ s := ⟨sampleSystem, sampleSystem_initial, follow_steps happen_step hfollow⟩
  exact ⟨s, t, result, migration_all_or_nothing hrun (Prod.mk.inj hs).1 (Prod.mk.inj hs).2 (follow_steps happen_step ht) hreleasing⟩

end GitCommitsPush.Reconciliation.StateMigration
