import OnePloy.Lib.Reach
import OnePloy.Lib.Table
import OnePloy.Lib.Interleave
import OnePloy.Lib.Attempt
import OnePloy.QuotaGate
import OnePloy.QuotaMembers
import OnePloy.QuotaStatements
import OnePloy.QuotaLoad
import OnePloy.QuotaCreations
import OnePloy.QuotaFailures
import OnePloy.ComputeRows
import OnePloy.ComputeScheduler
import OnePloy.ComputeCapacity
import OnePloy.ComputeServers
import OnePloy.ComputeBestFit
import OnePloy.ComputeLifecycle
import OnePloy.ComputeStatements
import OnePloy.ComputeInterleave
import OnePloy.Lib.PhpValue
import OnePloy.PaymentReports
import OnePloy.Lib.Foreign
import OnePloy.CheckoutRows
import OnePloy.CheckoutService
import OnePloy.CheckoutSettlement
import OnePloy.CheckoutPeriods
import OnePloy.DomainService
import OnePloy.DomainQuote
import OnePloy.CheckoutCalls
import OnePloy.CheckoutAttempts
import OnePloy.HandoffReserve
import OnePloy.HandoffRoundTrip
import OnePloy.DomainJobs
import OnePloy.Commerce
import OnePloy.CheckoutPaid
import OnePloy.CheckoutReports
import OnePloy.DomainDelivery
import OnePloy.DomainProvision
import OnePloy.ContainerStatus
import OnePloy.AiGateway
import OnePloy.AiGatewayCalls
import OnePloy.AiGatewayIdempotency
import OnePloy.AiGatewayBudget
import OnePloy.DeploymentQueue
import OnePloy.DeploymentTurns
import OnePloy.DeploymentDrain
import OnePloy.Lib.StableSort
import OnePloy.DeploymentOrder
import OnePloy.DeploymentCalls
import OnePloy.DeploymentLimits
import OnePloy.DeploymentFinal
import OnePloy.Lib.KeyedFold
import OnePloy.ScheduledCron
import OnePloy.ScheduledJobManager
import OnePloy.ScheduledRuns
import OnePloy.ScheduledBackups
import OnePloy.Lib.PhpText
import OnePloy.Lib.IpAddress
import OnePloy.SafeWebhookUrl
import OnePloy.SafeWebhookTargets
import OnePloy.Lib.Scan
import OnePloy.DomainUsage
import OnePloy.DomainConflicts
import OnePloy.TransferFlag
import OnePloy.PreviewContainers
import OnePloy.DatabaseRetention
import OnePloy.ServerMigration
import OnePloy.DatabaseStatus
import OnePloy.ComposeMounts
import OnePloy.ComposeVolumes
import OnePloy.VolumeRecovery
import OnePloy.TerminalCommand
import OnePloy.TerminalReach
import OnePloy.ContainerHealth
import OnePloy.Lib.PathWalk
import OnePloy.FilePaths
import OnePloy.Lib.OrderedMap
import OnePloy.ComposeDomains
import OnePloy.ComposeRekey
import OnePloy.ScheduledEdits
import OnePloy.Lib.Getopt
import OnePloy.AllowlistDedup
import OnePloy.EnvironmentDevView
import OnePloy.SudoQuoting
import OnePloy.CloneVolumes
import OnePloy.ComposeVolumeNames
import OnePloy.BackupStorageCap
import OnePloy.ServiceUrls
import OnePloy.ConfigurationHash
import OnePloy.ConfigurationSecrets
import OnePloy.ConfigurationLines
import OnePloy.RestartLimit
import OnePloy.PreviewStatus
import OnePloy.SafeCommands
import OnePloy.WwwRedirects
import OnePloy.DockerRunOptions
import OnePloy.DatabaseDetection
import OnePloy.VolumeReadBack
import OnePloy.VariableReferences
import OnePloy.ServiceVariables
import OnePloy.EnvironmentPages
import OnePloy.SshCommand
import OnePloy.TerminalReadBack
import OnePloy.TerminalAcceptance
import OnePloy.Lib.JsEncoding
import OnePloy.VolumeUploads
import OnePloy.TerminalCleanUp
import OnePloy.ZeroDowntime
