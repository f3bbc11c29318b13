import Aoox.OptimisticWrites
import Aoox.ReferenceExpansion
import Aoox.SecretCoverage
import Aoox.ConcurrentPatches
import Aoox.DatabaseProvisioning
import Aoox.ImageRetention
import Aoox.MaintenanceRouting
import Aoox.EvaluatedRows
import Aoox.PullRequestPreviews
import Aoox.ProjectRoundTrip
import Aoox.BackupCodes
import Aoox.Invitations
import Aoox.JobRuns
import Aoox.LastOwner
import Aoox.ApplicationDelete
import Aoox.InstanceBackup
import Aoox.LogsGateway
import Aoox.ProxyConfigs
import Aoox.CompanionRemoval
import Aoox.ComposePlan
import Aoox.ComposeRuns
import Aoox.GatewayTickets
import Aoox.MaintenanceSwitch
import Aoox.ShellSessions
import Aoox.VolumeRestore
import Aoox.AcceptedText
import Aoox.CidrRanges
import Aoox.DockerJsonStreams
import Aoox.EditedNotes
import Aoox.EnvironmentAccess
import Aoox.FlagRules
import Aoox.ImageFlavours
import Aoox.RemoteDocker
import Aoox.RemoteEventsTimers
import Aoox.RemoteSampling
import Aoox.ResultSets
import Aoox.VersionRestore
import Aoox.NormalizedSql
import Aoox.AlertEvaluation
import Aoox.DomainRollback
import Aoox.ErrorSnippets
import Aoox.FollowedTag
import Aoox.ProxyRoundTrip
import Aoox.RollingReplacement
import Aoox.TableReferences
import Aoox.AddedMounts
import Aoox.ErrorCursors
import Aoox.InboxPages
import Aoox.InstanceUpdates
import Aoox.NetworkRates
import Aoox.ServerHealth
import Aoox.HttpProbe
import Aoox.RepositoryUsage
import Aoox.ImageProtection
import Aoox.TraefikHosts
import Aoox.Base32
import Aoox.SetNames
import Aoox.WebhookDeploys
import Aoox.PanelDomain
