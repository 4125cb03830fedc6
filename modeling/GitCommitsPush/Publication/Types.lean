/-
  GitCommitsPush.Publication.Types — the records the publication phases pass around
  (`types.ts`) and the errors they throw (`errors.ts`).

  `scope` and `body` are optional strings: the code never tells null from absent.
-/

namespace GitCommitsPush.Publication

structure CommitMessage where
  type : String
  scope : Option String
  description : String
  body : Option String
  isBreaking : Bool
  deriving DecidableEq, Repr

structure CommitPlan where
  commit : CommitMessage
  files : List String
  deriving DecidableEq, Repr

inductive FeedbackKind where
  | validation | structural | race | git | network
  deriving DecidableEq, Repr

inductive ValidationRule where
  | commitMessage | subjectMaxLength
  deriving DecidableEq, Repr

structure FeedbackError where
  kind : FeedbackKind
  message : String
  resolutionHint : Option String := none
  files : Option (List String) := none
  planIndex : Option Nat := none
  rule : Option ValidationRule := none
  rejectedSubject : Option String := none
  actualLength : Option Nat := none
  maximumLength : Option Nat := none
  deriving DecidableEq, Repr

structure CommittedSha where
  sha : String
  files : List String
  deriving DecidableEq, Repr

/-- `AttemptsByKind`: an absent counter reads 0. -/
structure AttemptsByKind where
  validation : Nat := 0
  structural : Nat := 0
  race : Nat := 0
  git : Nat := 0
  network : Nat := 0
  deriving DecidableEq, Repr

namespace AttemptsByKind

def get (a : AttemptsByKind) : FeedbackKind → Nat
  | .validation => a.validation
  | .structural => a.structural
  | .race => a.race
  | .git => a.git
  | .network => a.network

def set (a : AttemptsByKind) (kind : FeedbackKind) (n : Nat) : AttemptsByKind :=
  match kind with
  | .validation => { a with validation := n }
  | .structural => { a with structural := n }
  | .race => { a with race := n }
  | .git => { a with git := n }
  | .network => { a with network := n }

end AttemptsByKind

structure Settings where
  provider : String
  model : String
  temperature : Rat
  autoPush : Bool
  skipTests : Bool
  fallbackProvider : Option String
  fallbackModel : Option String
  thinking : Option Bool
  agent : Option String
  maxDiffChars : Option Nat
  deriving DecidableEq, Repr

structure Feedback where
  previousCommit : String
  errors : List FeedbackError
  committedShas : Option (List CommittedSha)
  pendingFiles : Option (List String)
  deriving DecidableEq, Repr

/-- The two forms of `CommitJobPayload`. -/
inductive PayloadWork where
  | plan (diff : String) (feedback : Option Feedback)
  | repairCommitMessages (rejectedPlans : List CommitPlan) (validationErrors : List FeedbackError)
  deriving DecidableEq, Repr

structure CommitJobPayload where
  repository : String
  diffHash : String
  provider : String
  model : String
  temperature : Rat
  systemPrompt : String
  thinking : Option Bool
  agent : Option String
  work : PayloadWork
  deriving DecidableEq, Repr

/-- A job of the delegated batch; its prompt is the JSON text of the payload. -/
structure RetryJob where
  id : String
  prompt : CommitJobPayload
  deriving DecidableEq, Repr

inductive CommitJobResult where
  | success (id : String) (commits : List CommitPlan)
  | error (id : String) (error : String)
  deriving DecidableEq, Repr

inductive RepoStatus where
  | PENDING | RUNNING | SUCCESS | FAILED
  deriving DecidableEq, Repr

inductive RepositoryOperation where
  | commitAndPush | pushOnly
  deriving DecidableEq, Repr

structure TrackedPushSnapshot where
  sourceBranch : String
  validatedHeadSha : String
  upstreamRef : String
  remote : String
  destinationRef : String
  destinationBaselineSha : String
  outgoingShas : List String
  pushUrlFingerprint : String
  deriving DecidableEq, Repr

structure RepositoryInfo where
  id : String
  path : String
  operation : RepositoryOperation
  pushSnapshot : Option TrackedPushSnapshot
  deriving DecidableEq, Repr

structure LoopDetected where
  kind : FeedbackKind
  planHash : String
  deriving DecidableEq, Repr

structure RepoState where
  repository : String
  status : RepoStatus
  operation : Option RepositoryOperation
  pushSnapshot : Option TrackedPushSnapshot := none
  pushedShas : Option (List String) := none
  diffHash : Option String := none
  commits : Option (List CommitPlan) := none
  error : Option String := none
  attempts : AttemptsByKind := {}
  committedShas : Option (List CommittedSha) := none
  originalHead : Option String := none
  feedbackHistory : List String := []
  lastPlanHash : Option String := none
  loopDetected : Option LoopDetected := none
  fallbackAttempted : Bool := false
  deriving DecidableEq, Repr

/-! ## Errors -/

inductive CommitPlanErrorKind where
  | duplicateFile | emptyPlans | missingFile | nonexistentFile
  deriving DecidableEq, Repr

structure CommitPlanErrorContext where
  committedShas : List CommittedSha
  pendingFiles : List String
  deriving DecidableEq, Repr

structure PartialCommitErrorContext where
  committedShas : List CommittedSha
  originalHead : String
  failedIndex : Nat
  totalCount : Nat
  pendingFiles : List String
  deriving DecidableEq, Repr

structure PushError where
  message : String
  transient : Bool
  retryCount : Nat
  deriving DecidableEq, Repr

structure PostCommitPushErrorContext where
  committedShas : List CommittedSha
  originalHead : String
  pushRetryCount : Nat
  deriving DecidableEq, Repr

/-- What `executeMultiCommitAndPush` throws; `other` is an error of no class of its own. -/
inductive PublishError where
  | commitPlan (message : String) (kind : CommitPlanErrorKind) (files : Option (List String))
      (context : Option CommitPlanErrorContext)
  | diffHashMismatch
  | gitExec (message : String) (command : String) (exitCode : Int)
  | partialCommit (message : String) (context : PartialCommitErrorContext)
  | push (error : PushError)
  | postCommitPush (error : PushError) (context : PostCommitPushErrorContext)
  | other (message : String)
  deriving DecidableEq, Repr

end GitCommitsPush.Publication
