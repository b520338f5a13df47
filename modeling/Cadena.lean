import Cadena.Audit.ConcurrentAppend
import Cadena.Audit.StableValues
import Cadena.Audit.TamperEvidence
import Cadena.Connectors.BackfillJobs
import Cadena.Connectors.BackfillReport
import Cadena.Connectors.CommentExchange
import Cadena.Connectors.CommentRelease
import Cadena.Connectors.CommentStarvation
import Cadena.Connectors.ConcurrencyGate
import Cadena.Connectors.ConnectorConfig
import Cadena.Connectors.DeadLetterReinjection
import Cadena.Connectors.EchoReturn
import Cadena.Connectors.ForeignTwins
import Cadena.Connectors.LoadShedding
import Cadena.Connectors.MappingEvaluation
import Cadena.Connectors.MappingVersions
import Cadena.Connectors.MirrorCompleteness
import Cadena.Connectors.ProjectionKeys
import Cadena.Connectors.ProjectionOrder
import Cadena.Connectors.QuotaWindow
import Cadena.Connectors.RelayRetry
import Cadena.Connectors.RequestPacer
import Cadena.Connectors.RetryBudget
import Cadena.Connectors.ScriptResult
import Cadena.Connectors.ServiceNowBackfill
import Cadena.Connectors.WriteBackRuns
import Cadena.Events.SilentLoss
import Cadena.Flow.BlockerAttribution
import Cadena.Flow.Classifications
import Cadena.Flow.RuleTies
import Cadena.Flow.WaitRisk
import Cadena.Integrations.CorrelationResolve
import Cadena.Integrations.InboundWebhookQueue
import Cadena.Integrations.MappingGovernance
import Cadena.Lineage.ExportMoment
import Cadena.Lineage.LineageTraversal
import Cadena.Lineage.ServiceImpact
import Cadena.Metrics.ItilCounters
import Cadena.Monitoring.AlertRetry
import Cadena.Monitoring.Confirmation
import Cadena.NativeQuery.EncodedScope
import Cadena.NativeQuery.JqlIndexCheck
import Cadena.NativeQuery.JqlScope
import Cadena.NativeQuery.Watermark
import Cadena.Notifications.Dispatch
import Cadena.Notifications.TenantRouting
import Cadena.Services.AlertDiscovery
import Cadena.WorkItems.CustomFieldValidation
import Cadena.WorkItems.HeldTime
import Cadena.WorkItems.RoleGuard
import Cadena.WorkItems.SlaEmission
import Cadena.WorkItems.WorkflowValidation
