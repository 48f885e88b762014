import Astock.Proof.Branching
import Astock.Proof.BranchTotality
import Astock.Proof.Endings
import Astock.Proof.EffectKeys
import Astock.Proof.Attributions
import Astock.Proof.Paging
import Astock.Proof.Outages
import Astock.Proof.Propagation
import Astock.Proof.CurrentGraph
import Astock.Proof.RepeatedRevisions
import Astock.Proof.EvidenceRegistry
import Astock.Proof.SavedSessions
import Astock.Proof.Frames
import Astock.Proof.Lifecycle
import Astock.Proof.PointInTime
import Astock.Proof.Coalescing
import Astock.Proof.CachedBars
import Astock.Proof.ClusterSummaries
import Astock.Proof.Corrections
import Astock.Proof.DisclosureLinks
import Astock.Proof.TestLabels
import Astock.Proof.AgentRelations
import Astock.Proof.LookAhead
import Astock.Proof.AdjustedBars
import Astock.Proof.RoundTrips
import Astock.Proof.Braces
import Astock.Proof.Identifiers
import Astock.Proof.DeclaredNumbers
import Astock.Proof.ReportGate
import Astock.Proof.PlanIdentity
import Astock.Proof.NewsSessions
import Astock.Proof.ChanPipeline
import Astock.Proof.ComputeFinite
import Astock.Proof.VerifierLines
import Astock.Proof.DegradedCoverage
import Astock.Proof.RevisionOrder
import Astock.Proof.ReviewQueue
import Astock.Proof.EntityMerges
import Astock.Proof.RollingWindows
import Astock.Proof.QfqFormula
import Astock.Proof.SizingCeiling
import Astock.Proof.LargestLot
import Astock.Proof.DailyAnalysis
import Astock.Proof.Components
import Astock.Proof.Traversal
import Astock.Proof.PageRank
import Astock.Proof.Recovery
import Astock.Proof.ToolFragments
import Astock.Proof.RelationIdentity
import Astock.Lib.Transfer
import Astock.Proof.ModelContext
import Astock.Proof.LiveReplay
import Astock.Proof.PriceVarint
import Astock.Proof.Kline
import Astock.Proof.FiveMinutes
import Astock.Proof.MinutePipeline
import Astock.Proof.LabelPropagation
import Astock.Proof.PriceIn
import Astock.Proof.EventExtraction
import Astock.Proof.EventRows
import Astock.Proof.ExtractionRuns
import Astock.Proof.CurrencyConversion
import Astock.Proof.Observations
import Astock.Proof.QualityReports
import Astock.Proof.TransmissionPaths
import Astock.Proof.RelatedListed
import Astock.Proof.DriverTree
import Astock.Proof.TrailingPeak
import Astock.Proof.ClarifyAnswers
import Astock.Proof.LinkedSpans
import Astock.Proof.WorkerChannel
import Astock.Proof.AgentLifecycle
