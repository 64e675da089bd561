import PlatformConfig.CrashProgram
import PlatformConfig.CanonicalJson
import PlatformConfig.CrashLock
import PlatformConfig.CrashLinks
import PlatformConfig.CrashDisk
import PlatformConfig.CrashParts
import PlatformConfig.CrashTurns
import PlatformConfig.GuardPlan
import PlatformConfig.GuardStore
import PlatformConfig.EdgeGuard
import PlatformConfig.FailoverGuard
import PlatformConfig.GuardChange
import PlatformConfig.SharedGuard
import PlatformConfig.GuardInspect
import PlatformConfig.FailoverSafety
import PlatformConfig.FailoverController
import PlatformConfig.FailoverScript
import PlatformConfig.FailoverProtocol
import PlatformConfig.FailoverStop
import PlatformConfig.TrustTree
import PlatformConfig.TrustInstall
import PlatformConfig.TrustRecovery
import PlatformConfig.TrustHistory
import PlatformConfig.TrustAnchors
import PlatformConfig.HostResume
import PlatformConfig.CrashTrace
import PlatformConfig.AlloyActivation
import PlatformConfig.AlloyTruth
import PlatformConfig.AlloyRecovery
import PlatformConfig.LifecycleRecord
import PlatformConfig.LifecycleState
import PlatformConfig.LifecycleActivate
import PlatformConfig.LifecycleResponse
import PlatformConfig.LifecycleStatus
import PlatformConfig.LifecycleReads
import PlatformConfig.LifecycleMoves
import PlatformConfig.LifecycleSteps
import PlatformConfig.LifecycleCommands
import PlatformConfig.LifecycleTree
import PlatformConfig.LifecycleRuns
import PlatformConfig.LifecyclePair
import PlatformConfig.LifecycleCustody
import PlatformConfig.LifecycleRecovery
import PlatformConfig.LifecycleCheck
import PlatformConfig.LifecycleExpiry
import PlatformConfig.LifecycleCompletion
import PlatformConfig.FilePublication
import PlatformConfig.TrustRevalidation
import PlatformConfig.TrustCheck
import PlatformConfig.OperationSummary
import PlatformConfig.OperationVerdict
import PlatformConfig.OperationLauncher
import PlatformConfig.OperationAgreement
import PlatformConfig.RecordText
import PlatformConfig.RecordCodec
import PlatformConfig.ClientCsr
import PlatformConfig.AllowedSigners
import PlatformConfig.ActivationPlan
import PlatformConfig.FailoverPlan
import PlatformConfig.PlanJobs
import PlatformConfig.PlanReview
import PlatformConfig.JsonText
import PlatformConfig.JsonLines
import PlatformConfig.CompletionMarker
import PlatformConfig.ByteLines
import PlatformConfig.HostAliases
import PlatformConfig.PlanChain
import PlatformConfig.LifecycleOffer
import PlatformConfig.LifecycleInstall
import PlatformConfig.GitlabPackage
import PlatformConfig.GitlabDownload
import PlatformConfig.GitlabResume
import PlatformConfig.GitlabRuns
import PlatformConfig.AlloyAccepted
import PlatformConfig.GroupHosts
import PlatformConfig.TransportSelection
import PlatformConfig.QuotedText
import PlatformConfig.JsonKeys
import PlatformConfig.AlloyVersions
import PlatformConfig.AlloyBoundary
import PlatformConfig.RepositoryPolicy
import PlatformConfig.OperationLog
import PlatformConfig.TrustJournal
import PlatformConfig.PodmanMapping
import PlatformConfig.GuardedReplace
import PlatformConfig.ExtentArithmetic
import PlatformConfig.StorageRows
import PlatformConfig.StoragePreflight
import PlatformConfig.StorageHeadroom
import PlatformConfig.FileTree
import PlatformConfig.ExportManifest
import PlatformConfig.ExportExactness
import PlatformConfig.ExportRoundTrip
import PlatformConfig.ShellWords
import PlatformConfig.SshOptions
import PlatformConfig.SshPatterns
import PlatformConfig.StorageSsh
import PlatformConfig.SshPreflight
import PlatformConfig.UrlRedaction
import PlatformConfig.RequestRecord
import PlatformConfig.RequestChecks
import PlatformConfig.RequestHelper
import PlatformConfig.RequestShape
import PlatformConfig.RequestRuns
import PlatformConfig.RequestCreation
import PlatformConfig.RequestRecovery
import PlatformConfig.CrashThreads
import PlatformConfig.AlignmentManifest
import PlatformConfig.AlignmentHelper
import PlatformConfig.AlignmentProcesses
import PlatformConfig.AlignmentApproval
import PlatformConfig.AlignmentApplication
