import CoreMesh.Lib.Transition
import CoreMesh.Lib.Json
import CoreMesh.Lib.Table
import CoreMesh.Lib.Rewriting
import CoreMesh.Gateway.BreakerRuns
import CoreMesh.Gateway.Attempts
import CoreMesh.Gateway.ServeHTTP
import CoreMesh.Gateway.ProbeSlot
import CoreMesh.Gateway.OpeningRequest
import CoreMesh.Gateway.FailureWindow
import CoreMesh.Gateway.MachineLimiter
import CoreMesh.Gateway.Metrics
import CoreMesh.Gateway.ResponseWriters
import CoreMesh.Gateway.Forward
import CoreMesh.Http.Url
import CoreMesh.LogMiner.CandidateStore
import CoreMesh.LogMiner.Seeds
import CoreMesh.LogMiner.PipelineRuns
import CoreMesh.Cache.KeySpace
import CoreMesh.Cache.ParameterScope
import CoreMesh.Cache.Middleware
import CoreMesh.Rag.Ingestion
import CoreMesh.Rag.SparseRecall
import CoreMesh.Autopilot.PromptVersions
import CoreMesh.SqlEngine.RowLimit
import CoreMesh.SqlEngine.FunctionGuard
import CoreMesh.Tracing.EarliestFailure
import CoreMesh.Tracing.InteractionLog
import CoreMesh.Tracing.RedactionCoverage
import CoreMesh.SelfHealingDocs.AcceptedRepairs
import CoreMesh.SelfHealingDocs.Removals
import CoreMesh.SelfHealingDocs.Gating
import CoreMesh.Arbitration.FailClosed
import CoreMesh.Agents.SupervisorRuns
import CoreMesh.Agents.DocumentContext
import CoreMesh.Agents.Delivery
import CoreMesh.Lib.Ending
import CoreMesh.Tracing.StoredTraces
import CoreMesh.Lib.LineGrowth
import CoreMesh.Autopilot.ScoreGrowth
import CoreMesh.LogMiner.EmbeddingRuns
import CoreMesh.Lib.Substitution
import CoreMesh.SelfHealingDocs.ExactReferences
import CoreMesh.SelfHealingDocs.Partition
import CoreMesh.SelfHealingDocs.Simultaneous
import CoreMesh.SelfHealingDocs.Unchanged
import CoreMesh.Lib.Commonmark
import CoreMesh.SelfHealingDocs.CommonmarkHeadings
import CoreMesh.Lib.MarkedLines
import CoreMesh.Rag.HybridSearch
import CoreMesh.Lib.RoseTree
import CoreMesh.Tracing.TraceTree
import CoreMesh.Tracing.Sanitising
import CoreMesh.Lib.FixedWidth
import CoreMesh.Lib.Calendar
import CoreMesh.Tracing.Timestamps
import CoreMesh.Tracing.TraceRegistry
import CoreMesh.Ingestion.Extraction
import CoreMesh.Ingestion.ExtractedNumbers
import CoreMesh.Ingestion.OfflineTotality
import CoreMesh.Lib.JsonReading
import CoreMesh.Autopilot.BodyFrame
import CoreMesh.ModelRegression.Comparison
import CoreMesh.FineTuner.Splits
import CoreMesh.FineTuner.RunDirectory
import CoreMesh.SelfHealingDocs.RouteDiff
import CoreMesh.SelfHealingDocs.ComposeDiff
import CoreMesh.Runtime.Dependencies
import CoreMesh.Cache.IndexSetup
import CoreMesh.Gateway.Identities
import CoreMesh.Frontend.TraceFlow
import CoreMesh.Tracing.TraceListing
import CoreMesh.Tracing.TraceEndpoint
import CoreMesh.Agents.ShortTermMemory
import CoreMesh.Gateway.Traffic
import CoreMesh.GoldenDataset.Training
import CoreMesh.Ingestion.Endpoint
