import DsApm.Remediation.Integrity
import DsApm.Remediation.Expiry
import DsApm.Remediation.Dedup
import DsApm.CodeRca.Capacity
import DsApm.CodeRca.Admission
import DsApm.Schedule.Evaluation
import DsApm.Rules.Severity
import DsApm.Alertmanager.Batcher
import DsApm.Rules.CopyState
import DsApm.Rules.ThreeKinds
import DsApm.Alertmanager.LostUpdates
import DsApm.SqlSchema.Reaching
import DsApm.Querier.FormulaResult
import DsApm.Opamp.Reconnection
import DsApm.Opamp.RollOut
import DsApm.AgentConf.Deployment
import DsApm.Waterfall.Determinism
import DsApm.Waterfall.Selection
import DsApm.Alertmanager.Groups
import DsApm.Tokenizer.Revocation
import DsApm.Dlq.Idempotency
import DsApm.Querier.Overlap
import DsApm.Dashboard.TameVariables
import DsApm.Variables.Processing
import DsApm.Variables.Replacement
import DsApm.Querier.MergedStats
import DsApm.Querier.TimeShift
import DsApm.Querier.SeriesMerge
import DsApm.Querier.Consume
import DsApm.Querier.ScalarMerge
import DsApm.Querier.CursorPaging
import DsApm.Remediation.Targets
import DsApm.CodeRca.Engine
import DsApm.Remediation.Selection
import DsApm.AiStrategy.Parse
import DsApm.CodeRca.Signature
import DsApm.CodeRca.SourceMirror
import DsApm.Sop.Enrichment
import DsApm.SqlSchema.Matching
import DsApm.SqlSchema.IndexDiff
import DsApm.Schedule.Persistence
import DsApm.Rules.Absence
import DsApm.Rules.Duplicates
import DsApm.Rules.Environment
import DsApm.Sop.Runbooks
import DsApm.Alertmanager.Redaction
import DsApm.Rules.Serialisation
import DsApm.Querier.Fingerprint
import DsApm.LogPipelines.TimeGuard
import DsApm.LogPipelines.Wiring
import DsApm.Opamp.Pipeline
import DsApm.Querier.SeriesLimit
import DsApm.Querier.Unsatisfiable
import DsApm.Querier.TraceExpression
import DsApm.SqlSchema.Predicates
import DsApm.Waterfall.ServiceTime
import DsApm.Dlq.Recovery
import DsApm.Rules.AfterRestart
import DsApm.Waterfall.Flamegraph
import DsApm.Dashboard.Cycles
