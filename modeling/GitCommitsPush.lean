import GitCommitsPush.Lib.Runs
import GitCommitsPush.Lib.Fallible
import GitCommitsPush.Lib.FlatObject
import GitCommitsPush.Lib.JsText
import GitCommitsPush.Lib.JsonText
import GitCommitsPush.Lib.JsonTree
import GitCommitsPush.Lib.PosixPath
import GitCommitsPush.Lib.Log
import GitCommitsPush.Lib.Regex
import GitCommitsPush.Lib.StableSort
import GitCommitsPush.Reconciliation.ReconcilerState
import GitCommitsPush.Reconciliation.Reconciler
import GitCommitsPush.Reconciliation.Coordinator
import GitCommitsPush.Reconciliation.RowInvariant
import GitCommitsPush.Reconciliation.Fencing
import GitCommitsPush.Reconciliation.Admissions
import GitCommitsPush.Reconciliation.Launchers
import GitCommitsPush.Reconciliation.LauncherInvariant
import GitCommitsPush.Reconciliation.LauncherSteps
import GitCommitsPush.Reconciliation.SingleLive
import GitCommitsPush.Reconciliation.Ownership
import GitCommitsPush.Reconciliation.Wakeups
import GitCommitsPush.Reconciliation.ExecutionController
import GitCommitsPush.Reconciliation.GroupExit
import GitCommitsPush.Reconciliation.ControllerExit
import GitCommitsPush.Reconciliation.SupervisorPass
import GitCommitsPush.Reconciliation.ExecutionBoundary
import GitCommitsPush.Reconciliation.OnePass
import GitCommitsPush.Lib.PosixShell
import GitCommitsPush.Lib.Effect
import GitCommitsPush.Lib.Trace
import GitCommitsPush.Lib.SharedDirectory
import GitCommitsPush.Publication.Types
import GitCommitsPush.Publication.Host
import GitCommitsPush.Publication.RemainingDiff
import GitCommitsPush.Publication.QueueRetry
import GitCommitsPush.Publication.QuotedNames
import GitCommitsPush.Publication.RetryCommands
import GitCommitsPush.Scanner.UnifiedDiff
import GitCommitsPush.Scanner.SecretScanner
import GitCommitsPush.Publication.Diagnostics
import GitCommitsPush.Publication.PushDestination
import GitCommitsPush.Publication.Push
import GitCommitsPush.Publication.Validation
import GitCommitsPush.Publication.Publisher
import GitCommitsPush.Publication.CommitMessages
import GitCommitsPush.Publication.PushOnly
import GitCommitsPush.Publication.RetryPolicy
import GitCommitsPush.Publication.Phases
import GitCommitsPush.Publication.ObjectId
import GitCommitsPush.Publication.RetryHash
import GitCommitsPush.Publication.PublisherTrace
import GitCommitsPush.Publication.ResultTrace
import GitCommitsPush.Publication.Runs
import GitCommitsPush.Publication.ResultKeeps
import GitCommitsPush.Publication.Submodules
import GitCommitsPush.Publication.SubmoduleRuns
import GitCommitsPush.Publication.StagedCoverage
import GitCommitsPush.Publication.CompleteRuns
import GitCommitsPush.Publication.PublishedCommits
import GitCommitsPush.Publication.FeedbackHistory
import GitCommitsPush.Lib.JsonDocument
import GitCommitsPush.Bridge.TurnlockBlocks
import GitCommitsPush.Publication.DestinationRead
import GitCommitsPush.Publication.PlanSelections
import GitCommitsPush.Publication.SubjectFields
import GitCommitsPush.Lib.QuotedWords
import GitCommitsPush.Publication.ProcessConfig
import GitCommitsPush.Lib.PrefixCode
import GitCommitsPush.Installation.ReleaseTree
import GitCommitsPush.Lib.Interruption
import GitCommitsPush.Lib.JsonSchema
import GitCommitsPush.Bridge.CommitJobs
import GitCommitsPush.Installation.StandaloneInstaller
import GitCommitsPush.Installation.CrashConsistency
import GitCommitsPush.Installation.InstallLock
import GitCommitsPush.Installation.LockMoves
import GitCommitsPush.Installation.LockHolder
import GitCommitsPush.Installation.LockRecovery
import GitCommitsPush.Publication.RunInvariant
import GitCommitsPush.Publication.SuccessPushed
import GitCommitsPush.Publication.PlannedScanned
import GitCommitsPush.Publication.PushKeeps
import GitCommitsPush.Publication.LandedCommits
import GitCommitsPush.Publication.Remote
import GitCommitsPush.Publication.ExactPush
import GitCommitsPush.Publication.StateSchema
import GitCommitsPush.Publication.PushOnlyRecovery
import GitCommitsPush.Publication.Discovery
import GitCommitsPush.Publication.PlanText
import GitCommitsPush.Publication.PlanHash
import GitCommitsPush.Lib.RegexThreads
import GitCommitsPush.Lib.Masking
import GitCommitsPush.Lib.MaskingParts
import GitCommitsPush.Lib.RegexReplace
import GitCommitsPush.Publication.DiagnosticPasses
import GitCommitsPush.Publication.DiagnosticPrivacy
import GitCommitsPush.Publication.SubjectForm
import GitCommitsPush.Publication.SubjectRoom
import GitCommitsPush.Publication.MessageRepair
import GitCommitsPush.Publication.RepairRoom
import GitCommitsPush.Publication.RetryBudget
import GitCommitsPush.Publication.Deliveries
import GitCommitsPush.Publication.PhaseRuns
import GitCommitsPush.Scanner.DiffScan
import GitCommitsPush.Reconciliation.LegacyQueue
import GitCommitsPush.Reconciliation.HistoricalRuns
import GitCommitsPush.Reconciliation.CutoverPreflight
import GitCommitsPush.Reconciliation.PassSuccess
import GitCommitsPush.Bridge.JobResults
import GitCommitsPush.Publication.ValidatedContent
import GitCommitsPush.Lib.PercentDecoding
import GitCommitsPush.Lib.Interleaving
import GitCommitsPush.Lib.Sharing
import GitCommitsPush.Lib.Computed
import GitCommitsPush.Lib.TextSearch
import GitCommitsPush.Trust.IssuerStack
import GitCommitsPush.Trust.WholePaths
import GitCommitsPush.Trust.TokenValidation
import GitCommitsPush.Trust.TokenClaims
import GitCommitsPush.Trust.TokenMinting
import GitCommitsPush.Trust.MintedTokens
import GitCommitsPush.Trust.TokenRoundTrip
import GitCommitsPush.Runtime.RunProcess
import GitCommitsPush.Runtime.ProcessRuns
import GitCommitsPush.Lib.Exclusion
import GitCommitsPush.Reconciliation.StateMigration
import GitCommitsPush.Reconciliation.MigrationRuns
import GitCommitsPush.Reconciliation.SchemaMigration
import GitCommitsPush.Runtime.NodeSupervisor
import GitCommitsPush.Runtime.PipelineRuns
