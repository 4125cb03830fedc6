/-
  GitCommitsPush.Publication.StateSchema — what `config/state-schema.ts` accepts.

  The types of the model already exclude what the schemas say of types; the refinements are
  left: object ids, fingerprints and the evidence a push-only repository must carry.
-/

import GitCommitsPush.Publication.ObjectId
import GitCommitsPush.Publication.Types

namespace GitCommitsPush.Publication

/-- `/^[a-f0-9]{64}$/u`. -/
def fingerprintSchema (text : String) : Bool := text.toList.length == 64 && text.toList.all isHexChar

def pushSnapshotSchema (snapshot : TrackedPushSnapshot) : Bool :=
  gitObjectIdSchema snapshot.validatedHeadSha && gitObjectIdSchema snapshot.destinationBaselineSha &&
    (!snapshot.outgoingShas.isEmpty && snapshot.outgoingShas.all gitObjectIdSchema) &&
    fingerprintSchema snapshot.pushUrlFingerprint

/-- The evidence of `superRefine`. -/
def pushEvidence (repoState : RepoState) : Bool :=
  if repoState.operation = some .pushOnly then
    repoState.pushSnapshot.isSome &&
      (repoState.status != .SUCCESS ||
        (repoState.pushedShas.isSome && repoState.pushedShas == repoState.pushSnapshot.map (·.outgoingShas)))
  else repoState.pushSnapshot.isNone && repoState.pushedShas.isNone

def repoStateSchema (repoState : RepoState) : Bool :=
  repoState.pushSnapshot.all pushSnapshotSchema && repoState.pushedShas.all (·.all gitObjectIdSchema) &&
    pushEvidence repoState

/-- A snapshot read from a state that passed the schema. -/
structure PersistedSnapshot extends TrackedPushSnapshot where
  valid : pushSnapshotSchema toTrackedPushSnapshot = true

namespace PersistedSnapshot

variable (snapshot : PersistedSnapshot)

theorem ids : gitObjectIdSchema snapshot.validatedHeadSha = true ∧ gitObjectIdSchema snapshot.destinationBaselineSha = true := by
  have h := snapshot.valid
  rw [pushSnapshotSchema, Bool.and_eq_true, Bool.and_eq_true, Bool.and_eq_true] at h
  exact h.1.1

def head : ObjectId := ⟨snapshot.validatedHeadSha, snapshot.ids.1⟩

def baseline : ObjectId := ⟨snapshot.destinationBaselineSha, snapshot.ids.2⟩

end PersistedSnapshot

end GitCommitsPush.Publication
