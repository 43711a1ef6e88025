import PaseoGateway.AgentIdentitySafety
import PaseoGateway.CodexSubscriptionSafety
import PaseoGateway.RetainedHistorySafety
import PaseoGateway.WorkspaceLabelsSafety
import PaseoGateway.ArchiveSafety
import PaseoGateway.GitHubAppBrokerSafety
import PaseoGateway.SessionResults
import PaseoGateway.LabelConvergence
import PaseoGateway.TeardownSafety
import PaseoGateway.CheckoutBudgetSafety
import PaseoGateway.CodexBridgeSafety
import PaseoGateway.ScheduledTurn
import PaseoGateway.DirectoryWalk
import PaseoGateway.InventoryPaging
import PaseoGateway.InventoryCapture
import PaseoGateway.UploadConservation
import PaseoGateway.RoutingAgreement
import PaseoGateway.ScheduleDispatchSafety
import PaseoGateway.CredentialSafety
import PaseoGateway.ResourcesSafety
import PaseoGateway.LabelResidue
import PaseoGateway.TranscriptPaging
import PaseoGateway.TranscriptCapture
import PaseoGateway.TranscriptCaptureSafety
import PaseoGateway.WorkspaceTokenSafety
import PaseoGateway.WorkspacePathsSafety
import PaseoGateway.BranchSelection
import PaseoGateway.BranchSelectionSafety
import PaseoGateway.RefQueueSafety
import PaseoGateway.ObservationRotation
import PaseoGateway.ScopedIds
import PaseoGateway.BackendRequestsSafety
import PaseoGateway.HistoryTurnsSafety
import PaseoGateway.WorkspaceAdmissionSafety
import PaseoGateway.ScheduleTicks
import PaseoGateway.ControllerSettles
import PaseoGateway.ArchiveResidency
import PaseoGateway.ScheduleOccurrences
