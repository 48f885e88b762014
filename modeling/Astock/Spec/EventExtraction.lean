import Astock.Lib.Machine
import Astock.Lib.Regex
import Astock.Spec.EventOntology

/-!
# The extraction of events

`crates/event-intelligence/src/lib.rs`: the patterns and the words by which an event is read off a
title and a summary, with the evidence for its fields. `shortHash` stands for the first hexadecimal
digits of the SHA-256 of a text.
-/

namespace Astock.EventIntelligence

open Regex

def EVENT_EXTRACTION_VERSION : String := "evidence-event-v1"

structure EventExtractionInput where
  sourceRevisionId : String
  sourceVersionId : Option String
  title : String
  factualSummary : String
  sourceIsPrimary : Bool
  firstSeenAt : ℤ
  subjects : List EventEntityRef

/-- The class `\d`: the decimal digits of the Unicode tables of the regex crate. -/
structure UnicodeDigits where
  isDigit : Char → Bool
  ascii : ∀ c, c.isDigit → isDigit c
  /-- The full stop is punctuation. -/
  fullStop : isDigit '。' = false

/-! ## The patterns -/

section Patterns

variable (digits : UnicodeDigits)

/-- `\d+(?:\.\d+)?` -/
def decimalPattern : Regex :=
  seq (chars digits.isDigit 1 none) (opt (seq (lit ".") (chars digits.isDigit 1 none)))

/-- A number, space and one of the units. -/
def measured (units : List String) : Regex :=
  seq (group "value" (decimalPattern digits))
    (seq (chars Text.isWhiteSpace 0 none) (group "unit" (oneOf (units.map lit))))

def AMOUNT : Regex :=
  measured digits ["万亿元", "亿元", "万元", "亿美元", "万美元", "美元", "人民币", "元"]

def QUANTITY : Regex :=
  measured digits ["亿股", "万股", "股", "万吨", "吨", "万辆", "辆", "万台", "台", "套", "个", "项", "GWh",
    "GW", "MW"]

def DATE : Regex :=
  seq (group "y" (seq (lit "20") (chars digits.isDigit 2 (some 2))))
    (seq (char fun c => c ∈ ['-', '年', '/', '.'])
      (seq (group "m" (chars digits.isDigit 1 (some 2)))
        (seq (char fun c => c ∈ ['-', '月', '/', '.'])
          (seq (group "d" (chars digits.isDigit 1 (some 2))) (opt (lit "日"))))))

def BASELINE : Regex :=
  alt
    (seq (lit "20") (seq (chars digits.isDigit 2 (some 2)) (seq (lit "年")
      (opt (oneOf
        [seq (lit "第") (seq (char fun c => c ∈ ['一', '二', '三', '四', '1', '2', '3', '4'])
            (lit "季度")),
          lit "上半年", lit "前三季度", lit "年度"])))))
    (oneOf (["去年同期", "上年同期", "环比", "同比"].map lit))

end Patterns

/-! ## Dates -/

def isLeap (y : ℕ) : Bool := y % 4 = 0 && (y % 100 ≠ 0 || y % 400 = 0)

def daysInMonth (y m : ℕ) : ℕ :=
  if m = 2 then if isLeap y then 29 else 28
  else if m = 4 ∨ m = 6 ∨ m = 9 ∨ m = 11 then 30
  else 31

/-- `NaiveDate::from_ymd_opt` at midnight, as a timestamp. -/
def midnight (y m d : ℕ) : Option ℤ :=
  if 1 ≤ m ∧ m ≤ 12 ∧ 1 ≤ d ∧ d ≤ daysInMonth y m then
    let past : ℤ := y - 1
    let days := 365 * past + past / 4 - past / 100 + past / 400 +
      (((List.range (m - 1)).map fun k => daysInMonth y (k + 1)).sum + (d - 1) : ℕ)
    -- the days in front of 1970
    some ((days - 719162) * 86400)
  else none

example : midnight 2026 9 1 = some 1788220800 := by decide

/-- The date of a match; `parse` takes ASCII digits alone. -/
def captureDate (caps : Match) : Option ℤ := do
  let y ← decimal? (← caps.name "y")
  let m ← decimal? (← caps.name "m")
  let d ← decimal? (← caps.name "d")
  midnight y m d

/-! ## Words -/

def classifyKind (text : String) : EventKind :=
  let rules : List (EventKind × List String) :=
    [(.earnings, ["业绩", "财报", "营业收入", "净利润"]),
      (.order, ["中标", "订单", "签订合同", "框架协议"]),
      (.priceIncrease, ["涨价", "提价", "上调价格"]),
      (.shutdown, ["停产", "停工", "暂停生产"]),
      (.capacity, ["产能", "扩产", "投产", "产线"]),
      (.sanction, ["制裁", "实体清单", "出口管制"]),
      (.tariff, ["关税", "反倾销", "反补贴"]),
      (.accident, ["事故", "爆炸", "火灾", "泄漏"]),
      (.mergerAcquisition, ["并购", "收购", "重组", "吸收合并"]),
      (.repurchase, ["回购"]),
      (.shareReduction, ["减持"]),
      (.unlock, ["解禁", "限售股上市流通"]),
      (.litigation, ["诉讼", "仲裁", "起诉"]),
      (.technologyBreakthrough, ["技术突破", "首发", "首款", "研发成功"]),
      (.macroRelease, ["CPI", "PPI", "GDP", "非农", "PMI", "利率决议"]),
      (.policy, ["政策", "条例", "办法", "监管", "国务院", "证监会"]),
      (.guidance, ["指引", "预计", "展望", "业绩预告"])]
  ((rules.find? fun rule => rule.2.any (Text.contains text)).map Prod.fst).getD .other

def classifyLifecycle (text : String) (primary : Bool) : EventLifecycle :=
  if ["取消", "终止", "撤回", "作废"].any (Text.contains text) then .cancelled
  else if ["更正", "修订", "调整"].any (Text.contains text) then .revised
  else if ["完成", "已实施完毕", "履行完毕"].any (Text.contains text) then .completed
  else if ["生效", "正式实施", "已投产", "已执行"].any (Text.contains text) then .effective
  else if ["传闻", "网传", "据悉", "市场消息"].any (Text.contains text) then .rumor
  else if primary then .confirmed
  else .unverified

def analyticalDefaults : EventKind → Reversibility × ImpactHorizon × List String × List String
  | .earnings | .guidance =>
    (.conditional, .quarter, ["核对正式财报/指引", "跟踪下一报告期兑现", "比较市场一致预期修订"],
      ["后续正式财报未兑现", "一致预期已先行上调并充分交易"])
  | .order =>
    (.conditional, .year, ["核对合同生效条件", "跟踪收入确认与回款", "复核毛利率影响"],
      ["合同取消或延期", "订单金额不构成可确认收入"])
  | .priceIncrease | .shutdown | .accident =>
    (.reversible, .days, ["确认事件已生效", "观察供需/产量变化", "核对价格和库存传导"],
      ["供给快速恢复", "价格未持续或下游拒绝传导"])
  | .capacity | .technologyBreakthrough =>
    (.conditional, .year, ["确认技术/产线验收", "跟踪客户导入", "核对量产、良率与收入"],
      ["无法量产或客户验证失败", "资本开支回报低于资金成本"])
  | .policy | .sanction | .tariff | .macroRelease =>
    (.conditional, .quarter, ["核对正式政策原文", "确认实施日期与豁免", "跟踪经营数据和政策修订"],
      ["政策延后、撤销或存在关键豁免", "市场预期已提前反映"])
  | .mergerAcquisition =>
    (.conditional, .year, ["跟踪董事会/股东会/监管审批", "核对交易对价与融资", "验证并表协同"],
      ["审批失败或交易终止", "商誉及整合成本超过协同"])
  | .repurchase | .shareReduction | .unlock | .litigation =>
    (.conditional, .days, ["确认计划与法定程序", "跟踪实际执行数量", "比较成交量与估值变化"],
      ["计划未执行或规模显著低于披露", "市场已充分交易"])
  | .other => (.unknown, .days, ["补充一级来源事实"], ["关键事实无法核验"])

def currencyOf (unit : String) : Option String :=
  if Text.contains unit "美元" then some "USD"
  else if Text.contains unit "元" || Text.contains unit "人民币" then some "CNY"
  else none

def conditionsOf (combined : String) : List String :=
  let parts := (combined.toList.splitOnP fun c => c ∈ ['。', '；', ';']).map String.ofList
  let conditional := parts.filter fun part =>
    ["若", "如", "条件", "取决于", "前提"].any (Text.contains part)
  ((conditional.map Text.trim).filter (· ≠ "")).take 8

def officialEffectiveOf (combined : String) (primary : Bool) : Option Bool :=
  if ["生效", "正式实施", "已执行", "已投产"].any (Text.contains combined) then some primary
  else if ["拟", "计划", "草案", "征求意见"].any (Text.contains combined) then some false
  else none

def missingFields (event : StructuredEvent) : List String :=
  ([("对象", event.objects.isEmpty), ("金额", event.amountText.isNone),
    ("数量", event.quantityText.isNone), ("单位", event.unitOriginal.isNone),
    ("基准期", event.baselinePeriod.isNone), ("开始时间", event.startsAt.isNone),
    ("结束时间", event.endsAt.isNone), ("地域", event.region.isNone),
    ("生效状态", event.officialEffective.isNone)].filter (·.2)).map Prod.fst

/-! ## Extraction -/

section Extraction

variable (digits : UnicodeDigits) (shortHash : String → String)

/-- The text that is searched. -/
def EventExtractionInput.combined (input : EventExtractionInput) : String :=
  s!"{input.title}。{input.factualSummary}"

def evidence (eventId field : String) (provenance : EvidenceProvenance)
    (input : EventExtractionInput) (quote : Option String) (confidenceBps : ℕ) :
    EventFieldEvidence :=
  let quoted := quote.getD ""
  let seed := s!"{eventId}|{field}|{provenance.token}|{quoted}"
  { evidenceId := "eev:" ++ shortHash seed
    eventId := eventId
    fieldName := field
    provenance := provenance
    sourceRevisionId :=
      if provenance = .observedFact ∨ provenance = .companyGuidance then some input.sourceRevisionId
      else none
    sourceVersionId := input.sourceVersionId
    quoteOriginal := quote
    quoteZh := none
    location := .obj [("field", .str field), ("revision_id", .str input.sourceRevisionId)]
    observedAt := input.firstSeenAt
    confidenceBps := confidenceBps }

/-- The valid dates of the text, in order and each once. -/
def validDates (combined : String) : List ℤ :=
  ((((DATE digits).findIter combined).filterMap captureDate).insertionSort (· ≤ ·)).destutter (· ≠ ·)

/-- The event as it is before its evidence is added. -/
def eventFields (input : EventExtractionInput) : StructuredEvent :=
  let combined := input.combined
  let kind := classifyKind combined
  let (reversibility, impactHorizon, catalystPath, invalidationConditions) := analyticalDefaults kind
  let text (m : Match) : String := String.ofList m.text
  let unit (pattern : Regex) : Option String :=
    (pattern.find combined).bind fun caps => (caps.name "unit").map String.ofList
  let unitOriginal := (unit (AMOUNT digits)).or (unit (QUANTITY digits))
  let dates := validDates digits combined
  { eventId := "sevt:" ++ shortHash input.sourceRevisionId
    sourceRevisionId := input.sourceRevisionId
    kind := kind
    title := input.title
    subjects := input.subjects
    objects := []
    amountText := ((AMOUNT digits).find combined).map text
    quantityText := ((QUANTITY digits).find combined).map text
    unitOriginal := unitOriginal
    currencyOriginal := unitOriginal.bind currencyOf
    baselinePeriod := ((BASELINE digits).find combined).map text
    startsAt := dates[0]?
    endsAt := dates[1]?
    region := ["中国", "美国", "欧盟", "日本", "韩国", "东南亚", "全球"].find? (Text.contains combined)
    conditions := conditionsOf combined
    officialEffective := officialEffectiveOf combined input.sourceIsPrimary
    reversibility := reversibility
    impactHorizon := impactHorizon
    lifecycle := classifyLifecycle combined input.sourceIsPrimary
    catalystPath := catalystPath
    validationDates := dates
    invalidationConditions := invalidationConditions
    missingFields := []
    evidence := []
    extractionVersion := EVENT_EXTRACTION_VERSION
    createdAt := input.firstSeenAt
    updatedAt := input.firstSeenAt }

/-- The fields that facts are found for: whether the event has them, and their quotes. -/
def factFields (input : EventExtractionInput) (output : StructuredEvent) :
    List (String × Bool × Option String) :=
  let quote (n : ℕ) : Option String :=
    (((DATE digits).findIter input.combined)[n]?).map fun m => String.ofList m.text
  [("subjects", !output.subjects.isEmpty, some input.title),
    ("amount_text", output.amountText.isSome, output.amountText),
    ("quantity_text", output.quantityText.isSome, output.quantityText),
    ("unit_original", output.unitOriginal.isSome, output.unitOriginal),
    ("currency_original", output.currencyOriginal.isSome, output.amountText),
    ("baseline_period", output.baselinePeriod.isSome, output.baselinePeriod),
    ("starts_at", output.startsAt.isSome, quote 0),
    ("ends_at", output.endsAt.isSome, quote 1),
    ("region", output.region.isSome, output.region),
    ("conditions", !output.conditions.isEmpty,
      if output.conditions.isEmpty then none else some ("；".intercalate output.conditions)),
    ("official_effective", output.officialEffective.isSome, some input.title)]

def evidenceRows (input : EventExtractionInput) (output : StructuredEvent) :
    List EventFieldEvidence :=
  let row := fun field provenance quote confidenceBps =>
    evidence shortHash output.eventId field provenance input (some quote) confidenceBps
  let factProvenance : EvidenceProvenance :=
    if output.kind = .guidance then .companyGuidance else .observedFact
  [row "title" factProvenance input.title 10000,
    row "kind" .agentAssumption
      s!"规则 {EVENT_EXTRACTION_VERSION} 根据关键词分类为 {output.kind.chineseName}" 7000,
    row "lifecycle" factProvenance input.title (if input.sourceIsPrimary then 9500 else 5000)] ++
  ((factFields digits input output).filter (·.2.1)).map (fun (field, _, quote) =>
    evidence shortHash output.eventId field factProvenance input quote
      (if input.sourceIsPrimary then 9000 else 5000)) ++
  [row "reversibility" .agentAssumption
      s!"{output.kind.chineseName}类事件默认评估为{output.reversibility.chineseName}" 6000,
    row "impact_horizon" .agentAssumption
      s!"{output.kind.chineseName}类事件默认影响期限为{output.impactHorizon.chineseName}" 6000,
    row "catalyst_path" .scenario (" → ".intercalate output.catalystPath) 6000,
    row "invalidation_conditions" .scenario ("；".intercalate output.invalidationConditions) 6000]

def extractStructuredEvent (input : EventExtractionInput) : Except EventError StructuredEvent :=
  if Text.trim input.sourceRevisionId = "" ∨ Text.trim input.title = "" then
    .error (.invalid "来源修订和标题不能为空")
  else do
    let fields := eventFields digits shortHash input
    let output := { fields with evidence := evidenceRows digits shortHash input fields }
    let output := { output with missingFields := missingFields output }
    validateEvidenceCoverage output.outline
    pure output

end Extraction

end Astock.EventIntelligence
