import Astock.Lib.Float64
import Astock.Lib.Sorted
import Mathlib.Data.String.Basic

/-!
# Data quality

`crates/core/src/quality.rs`: how a summary is evaluated from the age of the data and the flags on them.
`crates/storage/src/quality.rs`: the observations that are stored with it, what is read back of them and
what is reported for a window of time.

The columns that hold the name of an enumeration or JSON are values of their types here.
-/

namespace Astock.Quality

inductive DatasetKind
  | realtimeQuote
  | intradayMinute
  | dailyKline
  | weeklyKline
  | monthlyKline
  | fundFlow
  | fundamentals
  | valuation
  | announcement
  | news
  | knowledgeGraph
  | macroData
  | backtest
  | searchDiscovery
  | other
  deriving DecidableEq, Repr

namespace DatasetKind

def chineseName : DatasetKind → String
  | realtimeQuote => "实时行情"
  | intradayMinute => "分时行情"
  | dailyKline => "日线"
  | weeklyKline => "周线"
  | monthlyKline => "月线"
  | fundFlow => "资金流"
  | fundamentals => "财务报表"
  | valuation => "估值"
  | announcement => "正式公告"
  | news => "财经资讯"
  | knowledgeGraph => "产业链图谱"
  | macroData => "宏观数据"
  | backtest => "回测结果"
  | searchDiscovery => "搜索发现"
  | other => "其他数据"

/-- The name that is stored; it orders the reports. -/
def token : DatasetKind → String
  | realtimeQuote => "realtime_quote"
  | intradayMinute => "intraday_minute"
  | dailyKline => "daily_kline"
  | weeklyKline => "weekly_kline"
  | monthlyKline => "monthly_kline"
  | fundFlow => "fund_flow"
  | fundamentals => "fundamentals"
  | valuation => "valuation"
  | announcement => "announcement"
  | news => "news"
  | knowledgeGraph => "knowledge_graph"
  | macroData => "macro"
  | backtest => "backtest"
  | searchDiscovery => "search_discovery"
  | other => "other"

end DatasetKind

inductive Severity
  | info
  | warning
  | blocking
  deriving DecidableEq, Repr

inductive FlagCode
  | stale
  | hardExpired
  | sourceConflict
  | missingField
  | unitMismatch
  | currencyMismatch
  | adjustmentMismatch
  | accountingScopeMismatch
  | unverified
  | incomplete
  deriving DecidableEq, Repr

structure Flag where
  code : FlagCode
  severity : Severity
  field : Option String
  message : String
  deriving DecidableEq, Repr

inductive SessionRule
  | tradingSession
  | tradingDayClose
  | calendar
  | disclosureDriven
  | versioned
  deriving DecidableEq, Repr

inductive FreshnessState
  | fresh
  | stale
  | expired
  deriving DecidableEq, Repr

inductive ConfidenceCeiling
  | high
  | medium
  | low
  | blocked
  deriving DecidableEq, Repr

structure FreshnessPolicy where
  expectedCadenceSecs : UInt64
  staleAfterSecs : UInt64
  hardExpirySecs : UInt64
  sessionRule : SessionRule

namespace FreshnessPolicy

def forDataset : DatasetKind → FreshnessPolicy
  | .realtimeQuote => ⟨2, 30, 300, .tradingSession⟩
  | .intradayMinute => ⟨60, 180, 900, .tradingSession⟩
  | .dailyKline | .fundFlow => ⟨86400, 129600, 604800, .tradingDayClose⟩
  | .weeklyKline => ⟨604800, 777600, 2419200, .tradingDayClose⟩
  | .monthlyKline => ⟨2419200, 3196800, 8035200, .tradingDayClose⟩
  | .fundamentals => ⟨7776000, 10368000, 47520000, .disclosureDriven⟩
  | .valuation => ⟨86400, 172800, 604800, .tradingDayClose⟩
  | .announcement => ⟨300, 86400, 604800, .disclosureDriven⟩
  | .news => ⟨60, 600, 86400, .calendar⟩
  | .knowledgeGraph => ⟨2592000, 15552000, 63072000, .versioned⟩
  | .macroData => ⟨2592000, 5184000, 31536000, .disclosureDriven⟩
  | .backtest => ⟨0, 0, 0, .versioned⟩
  | .searchDiscovery => ⟨60, 300, 3600, .calendar⟩
  | .other => ⟨3600, 86400, 604800, .calendar⟩

def evaluate (policy : FreshnessPolicy) (ageSecs : UInt64) (inTradingSession : Bool) : FreshnessState :=
  if policy.sessionRule = .versioned ∨ policy.hardExpirySecs = 0 then .fresh
  else if policy.sessionRule = .tradingSession ∧ inTradingSession = false then
    if max policy.hardExpirySecs 86400 ≤ ageSecs then .expired else .fresh
  else if policy.hardExpirySecs ≤ ageSecs then .expired
  else if policy.staleAfterSecs ≤ ageSecs then .stale
  else .fresh

end FreshnessPolicy

structure Summary where
  dataset : DatasetKind
  datasetName : String
  freshness : FreshnessState
  ageSecs : UInt64
  expectedCadenceSecs : UInt64
  staleAfterSecs : UInt64
  hardExpirySecs : UInt64
  qualityFlags : List Flag
  confidenceCeiling : ConfidenceCeiling
  allowHighConfidence : Bool
  allowDeterministicCompute : Bool
  deriving DecidableEq, Repr

/-- The flag that the age of the data adds. -/
def FreshnessPolicy.ageFlags (policy : FreshnessPolicy) : FreshnessState → List Flag
  | .fresh => []
  | .stale => [⟨.stale, .warning, none, "数据已超过陈旧阈值 " ++ toString policy.staleAfterSecs ++ " 秒"⟩]
  | .expired =>
    [⟨.hardExpired, .blocking, none, "数据已超过硬过期阈值 " ++ toString policy.hardExpirySecs ++ " 秒"⟩]

/-- `DataQualitySummary::evaluate`. -/
def Summary.evaluate (dataset : DatasetKind) (ageSecs : UInt64) (inTradingSession : Bool)
    (flags : List Flag) : Summary :=
  let policy := FreshnessPolicy.forDataset dataset
  let freshness := policy.evaluate ageSecs inTradingSession
  let flags := flags ++ policy.ageFlags freshness
  let blocking := flags.any (·.severity = .blocking)
  let warning := flags.any (·.severity = .warning)
  let confidenceCeiling : ConfidenceCeiling :=
    if blocking then .blocked else if freshness = .stale || warning then .medium else .high
  { dataset := dataset
    datasetName := dataset.chineseName
    freshness := freshness
    ageSecs := ageSecs
    expectedCadenceSecs := policy.expectedCadenceSecs
    staleAfterSecs := policy.staleAfterSecs
    hardExpirySecs := policy.hardExpirySecs
    qualityFlags := flags
    confidenceCeiling := confidenceCeiling
    allowHighConfidence := confidenceCeiling = .high
    allowDeterministicCompute := !blocking }

/-! ## Storage -/

structure QualityObservation where
  observationId : Option ℕ
  dataset : DatasetKind
  provider : String
  entityKey : Option String
  operation : String
  success : Bool
  latencyMs : Option UInt64
  summary : Summary
  missingFields : UInt32
  conflicts : UInt32
  errorKind : Option String
  recordedAt : ℤ
  deriving DecidableEq, Repr

/-- A row of `data_quality_observations`. -/
structure QualityRow where
  observationId : ℕ
  dataset : DatasetKind
  provider : String
  entityKey : Option String
  operation : String
  success : Bool
  latencyMs : Option Int64
  freshnessState : FreshnessState
  ageSecs : Int64
  expectedCadenceSecs : Int64
  staleAfterSecs : Int64
  hardExpirySecs : Int64
  missingFields : UInt32
  conflicts : UInt32
  qualityFlags : List Flag
  errorKind : Option String
  recordedAt : ℤ
  deriving DecidableEq, Repr

/-- The row that is inserted; the ids count up. -/
def QualityObservation.row (id : ℕ) (o : QualityObservation) : QualityRow where
  observationId := id
  dataset := o.dataset
  provider := o.provider
  entityKey := o.entityKey
  operation := o.operation
  success := o.success
  latencyMs := o.latencyMs.map (·.toInt64)
  freshnessState := o.summary.freshness
  ageSecs := o.summary.ageSecs.toInt64
  expectedCadenceSecs := o.summary.expectedCadenceSecs.toInt64
  staleAfterSecs := o.summary.staleAfterSecs.toInt64
  hardExpirySecs := o.summary.hardExpirySecs.toInt64
  missingFields := o.missingFields
  conflicts := o.conflicts
  qualityFlags := o.summary.qualityFlags
  errorKind := o.errorKind
  recordedAt := o.recordedAt

/-- `quality_observation_add`. -/
def qualityObservationAdd (rows : List QualityRow) (o : QualityObservation) : List QualityRow :=
  rows ++ [o.row (rows.length + 1)]

/-- The verdict that is worked out again when a row is loaded. -/
def QualityRow.confidenceCeiling (row : QualityRow) : ConfidenceCeiling :=
  if row.qualityFlags.any (·.severity = .blocking) then .blocked
  else if row.freshnessState = .stale || !row.qualityFlags.isEmpty then .medium
  else .high

def QualityRow.load (row : QualityRow) : QualityObservation where
  observationId := some row.observationId
  dataset := row.dataset
  provider := row.provider
  entityKey := row.entityKey
  operation := row.operation
  success := row.success
  latencyMs := row.latencyMs.map (·.toUInt64)
  summary :=
    { dataset := row.dataset
      datasetName := row.dataset.chineseName
      freshness := row.freshnessState
      ageSecs := row.ageSecs.toUInt64
      expectedCadenceSecs := row.expectedCadenceSecs.toUInt64
      staleAfterSecs := row.staleAfterSecs.toUInt64
      hardExpirySecs := row.hardExpirySecs.toUInt64
      qualityFlags := row.qualityFlags
      confidenceCeiling := row.confidenceCeiling
      allowHighConfidence := row.confidenceCeiling = .high
      allowDeterministicCompute := row.confidenceCeiling ≠ .blocked }
  missingFields := row.missingFields
  conflicts := row.conflicts
  errorKind := row.errorKind
  recordedAt := row.recordedAt

/-- `ORDER BY recorded_at DESC,observation_id DESC`. -/
def QualityRow.newestFirst (row : QualityRow) : ℤᵒᵈ ×ₗ ℕᵒᵈ :=
  toLex (OrderDual.toDual row.recordedAt, OrderDual.toDual row.observationId)

/-- The rows that a query selects. -/
def newestRows (rows : List QualityRow) (dataset : Option DatasetKind) (provider : Option String)
    (limit : ℕ) : List QualityRow :=
  (Sorted.sortByKey QualityRow.newestFirst (rows.filter fun row =>
    dataset.all (row.dataset = ·) && provider.all (row.provider = ·))).take (max 1 (min limit 5000))

def qualityObservationsRecent (rows : List QualityRow) (dataset : Option DatasetKind)
    (provider : Option String) (limit : ℕ) : List QualityObservation :=
  (newestRows rows dataset provider limit).map (·.load)

/-! ## Reports -/

/-- Numbers with the conversion `x.ceil() as usize`. -/
class CeilFloat (F : Type) extends Float64 F where
  ceil : F → ℕ

instance CeilFloat.exact : CeilFloat ℚ where
  ceil x := ⌈x⌉.toNat

structure DatasetSlo (F : Type) where
  dataset : DatasetKind
  datasetName : String
  provider : String
  observations : ℕ
  successes : ℕ
  errorRate : F
  latencyP50Ms : Option UInt64
  latencyP95Ms : Option UInt64
  lastSuccessAt : Option ℤ
  consecutiveStale : ℕ
  missingFields : ℕ
  conflicts : ℕ
  currentFreshness : FreshnessState
  expectedCadenceSecs : UInt64
  staleAfterSecs : UInt64
  hardExpirySecs : UInt64
  latestQualityFlags : List Flag

section

variable {F : Type} [CeilFloat F]

open Float64

/-- The percentile of sorted values. -/
def percentile (p : F) (values : List UInt64) : Option UInt64 :=
  if values.isEmpty then none else values[CeilFloat.ceil (lit (values.length - 1 : ℕ) * p)]?

/-- The report on observations of one dataset and provider, sorted, with the newest first. -/
def sloOf (first : QualityObservation) (rows : List QualityObservation) : DatasetSlo F :=
  let policy := FreshnessPolicy.forDataset first.dataset
  let successes := (rows.filter (·.success)).length
  let latencies := Sorted.sortByKey UInt64.toNat (rows.filterMap (·.latencyMs))
  { dataset := first.dataset
    datasetName := first.dataset.chineseName
    provider := first.provider
    observations := rows.length
    successes := successes
    errorRate := lit 1 - lit successes / lit rows.length
    latencyP50Ms := percentile (lit (1 / 2) : F) latencies
    latencyP95Ms := percentile (lit (19 / 20) : F) latencies
    lastSuccessAt := ((rows.filter (·.success)).map (·.recordedAt)).max?
    consecutiveStale := (rows.takeWhile fun row => !row.success || row.summary.freshness ≠ .fresh).length
    missingFields := (rows.map (·.missingFields.toNat)).sum
    conflicts := (rows.map (·.conflicts.toNat)).sum
    currentFreshness := if first.success then first.summary.freshness else .stale
    expectedCadenceSecs := policy.expectedCadenceSecs
    staleAfterSecs := policy.staleAfterSecs
    hardExpirySecs := policy.hardExpirySecs
    latestQualityFlags := first.summary.qualityFlags }

/-- The dataset and the provider of an observation, in the order of the reports. -/
def QualityObservation.group (o : QualityObservation) : String ×ₗ String := toLex (o.dataset.token, o.provider)

/-- `Reverse((row.recorded_at, row.observation_id))`; an observation without an id comes last. -/
def QualityObservation.newestFirst (o : QualityObservation) : ℤᵒᵈ ×ₗ ℕᵒᵈ :=
  toLex (OrderDual.toDual o.recordedAt, OrderDual.toDual (o.observationId.elim 0 (· + 1)))

/-- The report on the observations of a dataset and provider; none without any. -/
def reportOf (rows : List QualityObservation) (group : String ×ₗ String) : Option (DatasetSlo F) :=
  match Sorted.sortByKey QualityObservation.newestFirst (rows.filter (·.group = group)) with
  | [] => none
  | first :: rest => some (sloOf first (first :: rest))

/-- The reports on all of them. -/
def reports (rows : List QualityObservation) : List (DatasetSlo F) :=
  (((rows.map (·.group)).insertionSort (· ≤ ·)).destutter (· ≠ ·)).filterMap (reportOf rows)

/-- The earliest second of a window. -/
def cutoff (now : ℤ) (windowSecs : ℕ) : ℤ := now - (max 60 (min windowSecs 31536000) : ℕ)

/-- `quality_slo`. -/
def qualitySlo (now : ℤ) (rows : List QualityRow) (windowSecs : ℕ) : List (DatasetSlo F) :=
  reports ((qualityObservationsRecent rows none none 5000).filter (cutoff now windowSecs ≤ ·.recordedAt))

end

end Astock.Quality
