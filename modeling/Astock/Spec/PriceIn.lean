import Astock.Lib.Machine
import Astock.Lib.Float64
import Astock.Spec.EventOntology
import Mathlib.Data.String.Basic

/-!
# Price-in analysis

`crates/event-intelligence/src/lib.rs`: what the market did before an event, and how far the event is
priced in. `F` is the type of `f64`, dates are compared as texts. `validDate` stands for
`NaiveDate::parse_from_str` with `%Y-%m-%d`, `shortHash` for the first hexadecimal digits of a
SHA-256 and `now` for the clock. Differences of basis points are `i64` operations without a check.
-/

namespace Astock.EventIntelligence

open Float64 WholeFloat

def PRICE_IN_MODEL_VERSION : String := "deterministic-price-in-v1"

structure PriceSeriesPoint (F : Type) where
  date : String
  close : F
  volume : F
  peTtm : Option F

structure HistoricalAnalog where
  sampleId : String
  postAbnormalReturnBps : ℤ

structure PriceInInput (F : Type) where
  event : StructuredEvent
  securityCode : String
  eventDate : String
  asOfDate : String
  stock : List (PriceSeriesPoint F)
  benchmark : List (PriceSeriesPoint F)
  sector : List (PriceSeriesPoint F)
  valuation : List (PriceSeriesPoint F)
  structuredImpactBps : Option ℤ
  consensusImpactBps : Option ℤ
  historicalAnalogs : List HistoricalAnalog
  dataVersions : Json

structure FundamentalConclusion where
  direction : ImpactDirection
  impactBps : Option ℤ
  quantifiable : Bool
  rationale : String
  provenance : EvidenceProvenance
  deriving DecidableEq

structure MetricContribution where
  metric : String
  available : Bool
  valueBps : Option ℤ
  scoreContribution : ℤ
  explanation : String
  deriving DecidableEq

structure PriceInDiagnostics where
  preStockReturnBps : Option ℤ
  preBenchmarkReturnBps : Option ℤ
  preAbnormalReturnBps : Option ℤ
  sectorRelativeBps : Option ℤ
  abnormalVolumeBps : Option ℤ
  valuationChangeBps : Option ℤ
  historicalMedianPostBps : Option ℤ
  historicalSampleCount : ℕ
  components : List MetricContribution
  deriving DecidableEq

structure MarketOpportunityConclusion where
  priceInState : String
  opportunity : String
  priceInScore : Option ℤ
  rationale : String
  noTradeDirective : String
  deriving DecidableEq

structure ExpectationGap where
  structuredImpactBps : Option ℤ
  consensusImpactBps : Option ℤ
  gapBps : Option ℤ
  quantifiable : Bool
  rationale : String
  deriving DecidableEq

structure EventMarketAssessment where
  assessmentId : String
  eventId : String
  securityCode : String
  asOfDate : String
  fundamental : FundamentalConclusion
  marketOpportunity : MarketOpportunityConclusion
  expectationGap : ExpectationGap
  diagnostics : PriceInDiagnostics
  missingInputs : List String
  dataVersions : Json
  createdAt : ℤ

/-! ## The series -/

section Series

variable {F : Type} [WholeFloat F]

/-- The change from `a` to `b` in basis points. -/
def changeBps (a b : F) : ℤ := toI64 (round ((b / a - lit 1) * lit 10000))

/-- The position in front of the first point that is not before the event; 0 if there is none. -/
def lastBefore (points : List (PriceSeriesPoint F)) (eventDate : String) : ℕ :=
  (points.findIdx fun p => eventDate ≤ p.date) - 1

def returnBps (points : List (PriceSeriesPoint F)) (eventDate : String) (window : ℕ) : Option ℤ :=
  if points.length < 2 then none
  else
    let last := lastBefore points eventDate
    if last = 0 then none
    else do
      let a := (← points[last - window]?).close
      let b := (← points[last]?).close
      if isFinite a && isFinite b && lit 0 < a then some (changeBps a b) else none

def abnormalVolumeBps (points : List (PriceSeriesPoint F)) (eventDate : String) : Option ℤ :=
  let last := lastBefore points eventDate
  if last < 3 then none
  else do
    let history := (points.take last).drop (last - 20)
    let values := (history.map (·.volume)).filter fun v => isFinite v && lit 0 ≤ v
    -- the index is below the length, so that `points[end]` does not panic
    let today := (← points[last]?).volume
    if values.isEmpty || today ≤ lit 0 then none
    else
      let mean := values.foldl (· + ·) (lit 0) / lit values.length
      if lit 0 < mean then some (changeBps mean today) else none

/-- A price-earnings ratio that counts. -/
def PriceSeriesPoint.usablePe (p : PriceSeriesPoint F) : Option F :=
  p.peTtm.filter fun v => isFinite v && lit 0 < v

def valuationChangeBps (points : List (PriceSeriesPoint F)) (eventDate : String) : Option ℤ :=
  let values := (points.filter fun p => p.date ≤ eventDate).filterMap PriceSeriesPoint.usablePe
  if values.length < 2 then none
  else do
    let last ← values.getLast?
    -- the index is below the length, so that `values[..]` does not panic
    let start ← values[values.length - 6]?
    some (changeBps start last)

end Series

def median (values : List ℤ) : Option ℤ :=
  let sorted := values.insertionSort (· ≤ ·)
  let mid := sorted.length / 2
  if sorted.isEmpty then none
  else if sorted.length % 2 = 0 then do
    some (wrapI64 ((← sorted[mid - 1]?) + (← sorted[mid]?)) |>.tdiv 2)
  else sorted[mid]?

/-- `x.zip(y).map(|(a, b)| a - b)`. -/
def difference (x y : Option ℤ) : Option ℤ := do some (wrapI64 ((← x) - (← y)))

/-! ## The analysis -/

def clamp (x low high : ℤ) : ℤ := max low (min high x)

/-- `(v * sign / per).clamp(low, high)`. -/
def contribution (sign per low high v : ℤ) : ℤ := clamp ((wrapI64 (v * sign)).tdiv per) low high

def fundamentalConclusion (event : StructuredEvent) (structuredImpactBps : Option ℤ) :
    FundamentalConclusion :=
  let text := s!"{event.title} {event.kind.chineseName}"
  let inferredDirection := directionHint event.kind text
  match structuredImpactBps with
  | some value =>
    { direction := if 0 < value then .positive else if value < 0 then .negative else .neutral
      impactBps := some value
      quantifiable := true
      rationale := s!"结构化经营影响为 {value} 个基点；这是经营影响，不等同于股价机会。"
      provenance := .observedFact }
  | none =>
    { direction := inferredDirection
      impactBps := none
      quantifiable := false
      rationale :=
        s!"未取得可核验的经营影响量化值；仅按事件本体给出{inferredDirection.chineseName}方向假设。"
      provenance := .agentAssumption }

def expectationGap (structuredImpactBps consensusImpactBps : Option ℤ) : ExpectationGap :=
  let gap := difference structuredImpactBps consensusImpactBps
  { structuredImpactBps := structuredImpactBps
    consensusImpactBps := consensusImpactBps
    gapBps := gap
    quantifiable := gap.isSome
    rationale := match gap with
      | some v => s!"结构化经营影响减去市场一致预期为 {v} 个基点。"
      | none => "经营影响或市场一致预期缺失，预期差不可量化，禁止补造。" }

def ImpactDirection.sign : ImpactDirection → ℤ
  | positive => 1
  | negative => -1
  | _ => 0

/-- `push`: what is missing contributes nothing. -/
def metricContribution (metric : String) (value : Option ℤ) (contribution : ℤ)
    (explanation : String) : MetricContribution where
  metric := metric
  available := value.isSome
  valueBps := value
  scoreContribution := if value.isSome then contribution else 0
  explanation := explanation

/-- The state, the opportunity and the rationale for a direction and a score. -/
def conclusion (direction : ImpactDirection) (scoreValue : Option ℤ) : String × String × String :=
  match direction, scoreValue with
  | .positive, some value =>
    if 80 ≤ value then
      ("over_priced", "追高风险",
        "基本面方向偏正，但事件前异常收益、成交和估值显示市场可能已过度交易。")
    else if 60 ≤ value then
      ("mostly_priced", "机会偏中性",
        "基本面方向偏正，但多数预期可能已计入价格，需等待兑现或新预期差。")
    else
      ("partially_priced", "仍需验证",
        "基本面方向偏正且未见充分提前交易，但仍需验证正式生效与经营兑现。")
  | .negative, some value =>
    if 70 ≤ value then
      ("risk_mostly_priced", "风险或已部分释放",
        "负面经营影响存在，但价格与成交已提前反应；不代表风险结束。")
    else ("risk_not_fully_priced", "风险仍待消化", "负面经营影响与市场反应尚未充分匹配。")
  | _, _ =>
    ("insufficient_data", "无法量化", "方向或定量输入不足，不能把情绪标签转换为买卖方向。")

section Analysis

variable {F : Type} [WholeFloat F] (validDate : String → Bool) (shortHash : String → String)
  (now : ℤ)

def analyzePriceIn (input : PriceInInput F) : Except EventError EventMarketAssessment :=
  if Text.trim input.securityCode = "" || !validDate input.eventDate then
    .error (.invalid "price-in 必须提供证券代码和 YYYY-MM-DD 事件日")
  else
    let fundamental := fundamentalConclusion input.event input.structuredImpactBps
    let stockReturn := returnBps input.stock input.eventDate 5
    let benchmarkReturn := returnBps input.benchmark input.eventDate 5
    let abnormal := difference stockReturn benchmarkReturn
    let sectorReturn := returnBps input.sector input.eventDate 5
    let sectorRelative := difference stockReturn sectorReturn
    let volume := abnormalVolumeBps input.stock input.eventDate
    let valuation := valuationChangeBps input.valuation input.eventDate
    let analogMedian := median (input.historicalAnalogs.map (·.postAbnormalReturnBps))
    let gap := expectationGap input.structuredImpactBps input.consensusImpactBps
    let sign := fundamental.direction.sign
    let abnormalContribution := (abnormal.map (contribution sign 25 (-20) 35)).getD 0
    let volumeContribution := (volume.map fun v => clamp (v.tdiv 1000) (-5) 15).getD 0
    let sectorContribution := (sectorRelative.map (contribution sign 40 (-10) 15)).getD 0
    let valuationContribution := (valuation.map (contribution sign 50 (-10) 15)).getD 0
    let analogContribution := (analogMedian.map fun v =>
      (abnormal.map fun a => contribution sign 50 (-10) 10 (wrapI64 (a - v))).getD 0).getD 0
    let gapContribution := (gap.gapBps.map fun v =>
      contribution sign 50 (-15) 15 (wrapI64 (-v))).getD 0
    let components :=
      [metricContribution "事件前异常收益" abnormal abnormalContribution
          "个股事件前五日收益减市场基准；正向事件提前上涨会提高已交易程度。",
        metricContribution "异常成交量" volume volumeContribution
          "事件前最近交易日成交量相对过去二十日均值。",
        metricContribution "板块相对表现" sectorRelative sectorContribution
          "个股相对同板块组合的事件前表现。",
        metricContribution "估值变化" valuation valuationContribution
          "事件前 PE(TTM) 的五期变化；数据缺失时不使用价格代替。",
        metricContribution "历史同类事件" analogMedian analogContribution
          s!"{input.historicalAnalogs.length} 个同类事件的事后异常收益中位数。",
        metricContribution "结构化预期差" gap.gapBps gapContribution
          "经营影响高于一致预期会降低“已交易”评分；反之提高。"]
    let score := components.foldl (fun score row => score + row.scoreContribution) 35
    let available := (components.filter (·.available)).length
    let missingInputs :=
      ([("市场基准收益", benchmarkReturn), ("板块历史序列", sectorRelative), ("事件前成交量", volume),
          ("历史估值序列", valuation), ("历史同类事件校准", analogMedian),
          ("结构化经营影响", input.structuredImpactBps),
          ("市场一致预期", input.consensusImpactBps)].filter (·.2.isNone)).map Prod.fst
    let scoreValue := if 3 ≤ available ∧ sign ≠ 0 then some (clamp score 0 100) else none
    let (priceInState, opportunity, rationale) := conclusion fundamental.direction scoreValue
    .ok
      { assessmentId := "eass:" ++ shortHash
          s!"{input.event.eventId}|{input.securityCode}|{input.asOfDate}|{PRICE_IN_MODEL_VERSION}"
        eventId := input.event.eventId
        securityCode := input.securityCode
        asOfDate := input.asOfDate
        fundamental := fundamental
        marketOpportunity :=
          { priceInState := priceInState
            opportunity := opportunity
            priceInScore := scoreValue
            rationale := rationale
            noTradeDirective := "该结论只比较经营影响与市场定价，不生成买入/卖出指令。" }
        expectationGap := gap
        diagnostics :=
          { preStockReturnBps := stockReturn
            preBenchmarkReturnBps := benchmarkReturn
            preAbnormalReturnBps := abnormal
            sectorRelativeBps := sectorRelative
            abnormalVolumeBps := volume
            valuationChangeBps := valuation
            historicalMedianPostBps := analogMedian
            historicalSampleCount := input.historicalAnalogs.length
            components := components }
        missingInputs := missingInputs
        dataVersions := input.dataVersions
        createdAt := now }

end Analysis

/-! ## Event studies -/

structure EventStudySample where
  sampleId : String
  eventId : String
  ontologyKind : EventKind
  securityCode : String
  eventDate : String
  preWindowDays : ℕ
  postWindowDays : ℕ
  preAbnormalReturnBps : Option ℤ
  postAbnormalReturnBps : Option ℤ
  abnormalVolumeBps : Option ℤ
  valuationChangeBps : Option ℤ
  fundamentalDirection : ImpactDirection
  sourceRevisionId : String
  dataVersion : String
  createdAt : ℤ

structure EventStudyInput (F : Type) where
  event : StructuredEvent
  securityCode : String
  eventDate : String
  stock : List (PriceSeriesPoint F)
  benchmark : List (PriceSeriesPoint F)
  valuation : List (PriceSeriesPoint F)
  postWindowDays : ℕ
  dataVersion : String

section Study

variable {F : Type} [WholeFloat F] (shortHash : String → String) (now : ℤ)

/-- The change over the window that starts at a point. -/
def postChange (points : List (PriceSeriesPoint F)) (index window : ℕ) : Option ℤ := do
  let a := (← points[index]?).close
  let b := (← points[index + window]?).close
  if isFinite a && isFinite b && lit 0 < a then some (changeBps a b) else none

def buildEventStudySample (input : EventStudyInput F) : Option EventStudySample := do
  let eventIndex ← input.stock.findIdx? fun p => input.eventDate ≤ p.date
  if eventIndex = 0 || input.stock.length ≤ eventIndex + input.postWindowDays then none
  else
    let stockPost ← postChange input.stock eventIndex input.postWindowDays
    let benchmarkIndex ← input.benchmark.findIdx? fun p => input.eventDate ≤ p.date
    if input.benchmark.length ≤ benchmarkIndex + input.postWindowDays then none
    else
      let benchmarkPost ← postChange input.benchmark benchmarkIndex input.postWindowDays
      let text := s!"{input.event.title} {input.event.kind.chineseName}"
      some
        { sampleId := "ests:" ++ shortHash
            s!"{input.event.eventId}|{input.securityCode}|{input.postWindowDays}|{input.dataVersion}"
          eventId := input.event.eventId
          ontologyKind := input.event.kind
          securityCode := input.securityCode
          eventDate := input.eventDate
          preWindowDays := 5
          postWindowDays := input.postWindowDays % 2 ^ 32
          preAbnormalReturnBps := difference (returnBps input.stock input.eventDate 5)
            (returnBps input.benchmark input.eventDate 5)
          postAbnormalReturnBps := some (wrapI64 (stockPost - benchmarkPost))
          abnormalVolumeBps := abnormalVolumeBps input.stock input.eventDate
          valuationChangeBps := valuationChangeBps input.valuation input.eventDate
          fundamentalDirection := directionHint input.event.kind text
          sourceRevisionId := input.event.sourceRevisionId
          dataVersion := input.dataVersion
          createdAt := now }

end Study

end Astock.EventIntelligence
