import Astock.Lib.Json
import Astock.Spec.Lifecycle

/-!
# The ontology of events

The data of `crates/event-intelligence/src/lib.rs`: what an event is, the entities it names, the
evidence for its fields and which way it points. `outline` keeps of an event what its lifecycle
and the coverage of its evidence read.
-/

namespace Astock

def EvidenceProvenance.token : EvidenceProvenance → String
  | observedFact => "observed_fact"
  | companyGuidance => "company_guidance"
  | marketConsensus => "market_consensus"
  | agentAssumption => "agent_assumption"
  | scenario => "scenario"

namespace EventIntelligence

inductive EventKind
  | earnings
  | guidance
  | order
  | priceIncrease
  | shutdown
  | capacity
  | policy
  | sanction
  | tariff
  | accident
  | mergerAcquisition
  | repurchase
  | shareReduction
  | unlock
  | litigation
  | technologyBreakthrough
  | macroRelease
  | other
  deriving DecidableEq, Repr

def EventKind.chineseName : EventKind → String
  | earnings => "业绩"
  | guidance => "经营指引"
  | order => "订单/中标"
  | priceIncrease => "涨价"
  | shutdown => "停产"
  | capacity => "产能"
  | policy => "政策"
  | sanction => "制裁"
  | tariff => "关税"
  | accident => "事故"
  | mergerAcquisition => "并购重组"
  | repurchase => "回购"
  | shareReduction => "减持"
  | unlock => "解禁"
  | litigation => "诉讼"
  | technologyBreakthrough => "技术突破"
  | macroRelease => "宏观发布"
  | other => "其他事件"

inductive ImpactHorizon
  | intraday
  | days
  | quarter
  | year
  deriving DecidableEq, Repr

def ImpactHorizon.chineseName : ImpactHorizon → String
  | intraday => "日内"
  | days => "数日"
  | quarter => "季度"
  | year => "年度"

inductive Reversibility
  | reversible
  | conditional
  | irreversible
  | unknown
  deriving DecidableEq, Repr

def Reversibility.chineseName : Reversibility → String
  | reversible => "可逆"
  | conditional => "条件可逆"
  | irreversible => "不可逆"
  | unknown => "未知"

inductive ImpactDirection
  | positive
  | negative
  | neutral
  | unknown
  deriving DecidableEq, Repr

def ImpactDirection.chineseName : ImpactDirection → String
  | positive => "正向"
  | negative => "负向"
  | neutral => "中性"
  | unknown => "无法判断"

structure EventEntityRef where
  entityId : String
  name : String
  listedCode : Option String
  role : String
  deriving DecidableEq, Repr

structure EventFieldEvidence where
  evidenceId : String
  eventId : String
  fieldName : String
  provenance : EvidenceProvenance
  sourceRevisionId : Option String
  sourceVersionId : Option String
  quoteOriginal : Option String
  quoteZh : Option String
  location : Json
  observedAt : ℤ
  confidenceBps : ℕ
  deriving DecidableEq

structure StructuredEvent where
  eventId : String
  sourceRevisionId : String
  kind : EventKind
  title : String
  subjects : List EventEntityRef
  objects : List EventEntityRef
  amountText : Option String
  quantityText : Option String
  unitOriginal : Option String
  currencyOriginal : Option String
  baselinePeriod : Option String
  startsAt : Option ℤ
  endsAt : Option ℤ
  region : Option String
  conditions : List String
  officialEffective : Option Bool
  reversibility : Reversibility
  impactHorizon : ImpactHorizon
  lifecycle : EventLifecycle
  catalystPath : List String
  validationDates : List ℤ
  invalidationConditions : List String
  missingFields : List String
  evidence : List EventFieldEvidence
  extractionVersion : String
  createdAt : ℤ
  updatedAt : ℤ
  deriving DecidableEq

def EventFieldEvidence.outline (row : EventFieldEvidence) : Astock.EventFieldEvidence where
  evidenceId := row.evidenceId
  eventId := row.eventId
  fieldName := row.fieldName
  provenance := row.provenance
  sourceRevisionId := row.sourceRevisionId
  quoteOriginal := row.quoteOriginal
  confidenceBps := row.confidenceBps

def StructuredEvent.outline (event : StructuredEvent) : Astock.StructuredEvent where
  eventId := event.eventId
  sourceRevisionId := event.sourceRevisionId
  subjects := event.subjects.map (·.entityId)
  amountText := event.amountText
  quantityText := event.quantityText
  unitOriginal := event.unitOriginal
  currencyOriginal := event.currencyOriginal
  baselinePeriod := event.baselinePeriod
  startsAt := event.startsAt
  endsAt := event.endsAt
  region := event.region
  conditions := event.conditions
  officialEffective := event.officialEffective
  lifecycle := event.lifecycle
  evidence := event.evidence.map EventFieldEvidence.outline

/-- Which way an event points, by the words of a text and else by its kind. -/
def directionHint (kind : EventKind) (text : String) : ImpactDirection :=
  if ["下降", "下滑", "亏损", "减持", "事故", "停产", "制裁", "诉讼", "处罚", "取消"].any
      (Text.contains text) then .negative
  else if ["增长", "上调", "中标", "回购", "突破", "投产", "涨价", "盈利"].any (Text.contains text) then
    .positive
  else match kind with
    | .repurchase | .order | .technologyBreakthrough => .positive
    | .shareReduction | .unlock | .accident | .litigation => .negative
    | _ => .unknown

end EventIntelligence

end Astock
