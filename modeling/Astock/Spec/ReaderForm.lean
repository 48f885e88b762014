import Astock.Lib.Lines
import Astock.Spec.ReportDraft

/-!
# The forms of a draft

## The form the verifier reads

`render_verifier_form` of `crates/agent-runtime/src/render.rs` prints a draft line by line and
notes which claim it printed in which line; `claim_for_finding` of `finalize.rs` turns a positional
finding back into a claim through these notes.
-/

namespace Astock.Report

variable {F : Type} [PrintedFloat F]

/-! ### Rendering -/

/-- Substitute `{label}` references with the declared value and unit. -/
def substituteNumbers (text : String) (numbers : List (String × F × Option String)) : String :=
  String.ofList ((Spans.spans ['{'] '}' text.toList).flatMap fun
    | .inl c => [c]
    | .inr label =>
      let label := Text.trim (String.ofList label)
      match numbers.find? fun number => number.1 = label with
      | some (_, value, unit) => (PrintedFloat.display value ++ unit.getD "").toList
      -- validation refuses a reference that names no number
      | none => label.toList)

/-- Report-level prose fields, in the order the verifier form emits them. -/
def reportLevelProse (draft : VerifiedReportDraft F) : List String :=
  draft.executiveSummary :: draft.overallUncertainty.toList ++ draft.limitations

/-- The `(label, value, unit)` triples any claim declares, for report-level prose. -/
def reportNumbers (draft : VerifiedReportDraft F) : List (String × F × Option String) :=
  (reportLevelNumbers draft).map fun entry => (entry.1, entry.2.value, entry.2.unit)

/-- The `(label, value, unit)` triples a claim declares. -/
def declaredNumbers (claim : Claim F) : List (String × F × Option String) :=
  claim.numericItems.map fun item => (item.label, item.value, item.unit)

/-- `format!("【E:{id}】")`. -/
def cite (id : String) : String := "【E:" ++ id ++ "】"

def citeAll (ids : List String) : String := String.join (ids.map cite)

/-- The evidence of the numbers that a report-level text references. -/
def referencedInProse (draft : VerifiedReportDraft F) (text : String) : List String :=
  (placeholderLabels text).flatMap fun label =>
    (draft.items.filter fun item => item.label = label).flatMap fun item =>
      item.provenance.referencedEvidence

/-- A number that the prose of its claim does not present. -/
def itemText (item : NumericItem F) : String :=
  " " ++ item.label ++ "=" ++ PrintedFloat.display item.value ++ item.unit.getD ""

/-- A number behind the prose of a claim that references the given labels, and its citations. -/
def itemLine (labels : List String) (item : NumericItem F) : String :=
  (if item.label ∈ labels then "" else itemText item) ++
    citeAll item.provenance.referencedEvidence

/-- The prose of a claim. -/
def claimProse (claim : Claim F) : String :=
  "【" ++ claim.kind.displayLabel ++ "】" ++
    Text.trim (substituteNumbers claim.statement (declaredNumbers claim))

def claimLine (claim : Claim F) : String :=
  claimProse claim ++
    String.join (claim.numericItems.map (itemLine (placeholderLabels claim.statement))) ++
    citeAll claim.evidenceIds

/-- What one `push` prints. -/
inductive FormLine (F : Type)
  /-- The title or a heading. -/
  | heading (text : String)
  /-- Report-level prose that references a number. -/
  | prose (text : String)
  | ofClaim (claim : Claim F)
  deriving DecidableEq

def FormLine.text (draft : VerifiedReportDraft F) : FormLine F → String
  | .heading text => text
  | .prose text =>
    substituteNumbers text (reportNumbers draft) ++ citeAll (referencedInProse draft text)
  | .ofClaim claim => claimLine claim

/-- The claim a line is printed for. -/
def FormLine.owner : FormLine F → Option String
  | .ofClaim claim => some claim.id
  | _ => none

/-- The claims of a section that the draft defines. -/
def sectionClaims (draft : VerifiedReportDraft F) (part : ReportSection) : List (Claim F) :=
  part.claimIds.filterMap fun id => draft.claims.find? fun claim => claim.id = id

/-- What the verifier form prints, in order. -/
def formLines (draft : VerifiedReportDraft F) : List (FormLine F) :=
  .heading (substituteNumbers draft.title (reportNumbers draft)) ::
    ((reportLevelProse draft).filter (placeholderLabels · ≠ [])).map .prose ++
    draft.sections.flatMap fun part =>
      .heading part.heading :: (sectionClaims draft part).map .ofClaim

/-- The state of `render_verifier_form`. -/
structure VerifierForm where
  out : String := ""
  index : List (ℕ × String) := []
  lineNumber : ℕ := 0

def VerifierForm.push (form : VerifierForm) (text : String) (claim : Option String) :
    VerifierForm where
  out := form.out ++ text ++ "\n"
  index := form.index ++ claim.toList.map ((form.lineNumber + 1, ·))
  lineNumber := form.lineNumber + 1

def renderVerifierForm (draft : VerifiedReportDraft F) : VerifierForm :=
  (formLines draft).foldl (fun form line => form.push (line.text draft) line.owner) {}

/-- `verifier_markdown` of the rendered report. -/
def verifierMarkdown (draft : VerifiedReportDraft F) : String := (renderVerifierForm draft).out

/-- Which claim occupies each line of the verifier form. -/
def verifierLineClaims (draft : VerifiedReportDraft F) (line : ℕ) : Option String :=
  (renderVerifierForm draft).index.lookup line

/-! ### Findings -/

/-- Split `code:detail` into its parts. -/
def splitCode (finding : String) : String × Option String :=
  match finding.toList.span (· ≠ ':') with
  | (_, []) => (finding, none)
  | (code, _ :: rest) => (String.ofList code, some (String.ofList rest))

/-- `str::parse::<usize>`. -/
def parseUsize (text : List Char) : Option ℕ :=
  let digits := match text with
    | '+' :: digits => digits
    | digits => digits
  if digits ≠ [] ∧ digits.all Char.isDigit ∧ Nat.ofDigitChars 10 digits 0 < 2 ^ 64 then
    some (Nat.ofDigitChars 10 digits 0)
  else none

/-- Claim a positional finding refers to, if it carries a line reference. -/
def claimForFinding (detail : Option String) (lineClaims : ℕ → Option String) : Option String := do
  let detail ← detail
  match detail.toList.takeWhile (· ≠ ':') with
  | 'l' :: 'i' :: 'n' :: 'e' :: '_' :: number => (parseUsize number).bind lineClaims
  | _ => none

end Astock.Report

/-!
## The form the investor reads

`render` and `render_markdown` of `crates/agent-runtime/src/render.rs`, with the labels of
`report.rs`: the prose of a draft with numbered citations, and a list of what the numbers stand for.
The structured report beside the text is left out, as far as the text is not made of it.
-/

namespace Astock.Report

/-! ### Labels -/

def sourceDisplayName (source : String) : String :=
  match source with
  | "tencent" => "腾讯行情"
  | "sina" => "新浪行情"
  | "eastmoney" => "东方财富"
  | "tdx" => "通达信"
  | "joinquant" => "聚宽"
  | "tushare" => "Tushare"
  | "disclosure" => "公司公告"
  | "cninfo" => "巨潮资讯"
  | "sse" => "上交所"
  | "szse" => "深交所"
  | "csrc" => "证监会"
  | "astock-compute" => "确定性计算"
  | other => other

/-- `field.rsplit('/').next()`. -/
def leafOf (field : String) : String := String.ofList (field.toList.rtakeWhile (· ≠ '/'))

def friendlyField (field : String) : String :=
  match leafOf field with
  | "last" | "price" | "close" => "最新价"
  | "pre_close" | "prev_close" | "yesterday_close" => "昨收价"
  | "open" => "开盘价"
  | "high" => "最高价"
  | "low" => "最低价"
  | "change" => "涨跌额"
  | "change_pct" | "pct" | "pct_chg" => "涨跌幅"
  | "turnover" | "turnover_rate" => "换手率"
  | "amount" => "成交额"
  | "volume" | "vol" => "成交量"
  | "timestamp" | "time" | "trade_time" => "行情时间"
  | "eps" => "每股收益"
  | "pe" | "pe_ttm" => "市盈率"
  | "pb" => "市净率"
  | "shares" | "total_shares" => "股本"
  | "revenue" => "营业收入"
  | "net_profit" => "归母净利润"
  | other => other

/-- Trim an RFC3339 timestamp to something a reader scans quickly. -/
def shortTimestamp (raw : String) : Option String :=
  match raw.toList.span (· ≠ 'T') with
  | (_, []) => none
  | (date, _ :: rest) =>
    let time := (Text.slice (String.ofList rest) 0 5).getD ""
    if time = "" then some (String.ofList date) else some (String.ofList date ++ " " ++ time)

/-- A text that is there and not empty. -/
def nonempty (text : Option String) : Option String := text.filter (· ≠ "")

/-- The time in a label. -/
def EvidenceDescriptor.stamp (descriptor : EvidenceDescriptor) : Option String :=
  (descriptor.publishedAt.or descriptor.observedAt).bind shortTimestamp

/-- The parts of a label. -/
def EvidenceDescriptor.labelParts (descriptor : EvidenceDescriptor) : List String :=
  sourceDisplayName descriptor.source ::
    ((nonempty descriptor.documentTitle).or ((nonempty descriptor.field).map friendlyField)).toList ++
    ((nonempty descriptor.documentLocation).or descriptor.stamp).toList

/-- Human-readable label shown instead of the identifier. -/
def EvidenceDescriptor.displayLabel (descriptor : EvidenceDescriptor) : String :=
  if descriptor.isCalculation then "确定性计算" else " · ".intercalate descriptor.labelParts

/-- Trust state in words an investor can act on. -/
def EvidenceDescriptor.trustLabel (descriptor : EvidenceDescriptor) : String :=
  if descriptor.conflicting then "来源存在冲突"
  else if descriptor.qualityBlocking then "证据质量不足"
  else if descriptor.isCalculation then "确定性计算"
  else if descriptor.source ∈ ["disclosure", "cninfo", "sse", "szse", "csrc"] then "公司正式披露"
  else if descriptor.source ∈ ["tencent", "sina", "tdx"] then "实时行情"
  else if descriptor.source ∈ ["joinquant", "tushare"] then "量化数据源"
  else "单一来源"

def NumericProvenance.displayLabel {F : Type} : NumericProvenance F → String
  | .observed _ => "实测数据"
  | .calculated _ _ _ => "确定性计算"
  | .userAssumption => "用户情景假设"
  | .estimated _ _ _ => "模型估算"

def NumericProvenance.operation {F : Type} : NumericProvenance F → Option String
  | .calculated _ operation _ => some operation
  | _ => none

/-! ### Rendering -/

variable {F : Type} [PrintedFloat F]

/-- `note`: an identifier gets the next number when it has none. -/
def note (order : List String) (id : String) : List String :=
  if id ∈ order then order else order ++ [id]

/-- The claims that are printed, in order. -/
def printedClaims (draft : VerifiedReportDraft F) : List (Claim F) :=
  draft.sections.flatMap (sectionClaims draft)

/-- The identifiers in the order of their numbers. -/
def referenceOrder (draft : VerifiedReportDraft F) : List String :=
  ((printedClaims draft).flatMap Claim.referenced).foldl note []

/-- `numbers_for`. -/
def numbersFor (order ids : List String) : List ℕ :=
  ids.filterMap fun id => (order.idxOf? id).map (· + 1)

/-- Numbers in brackets. -/
def bracketed (numbers : List ℕ) : String :=
  String.join (numbers.map fun n => "[" ++ toString n ++ "]")

/-- The numbers behind a text. -/
def citationMarks (numbers : List ℕ) : String :=
  if numbers = [] then "" else " " ++ bracketed numbers

/-- The numbers of a claim that its prose does not present. -/
def ownLineItems (claim : Claim F) : List (NumericItem F) :=
  claim.numericItems.filter fun item => item.label ∉ placeholderLabels claim.statement

/-- What `render_markdown` prints at one place. -/
inductive Block (F : Type)
  | title
  | summary
  | heading (text : String)
  /-- The line of a claim. -/
  | prose (claim : Claim F)
  /-- A number on a line of its own. -/
  | number (item : NumericItem F)
  | assumption (text : String)
  | uncertainty (text : String)
  | conflicts (ids : List String)
  /-- The line behind the claims of a section and behind the limitations. -/
  | blank
  | overallUncertainty (text : String)
  | limitationsHeading
  | limitation (text : String)
  | referencesHeading
  | reference (n : ℕ) (id : String)
  deriving DecidableEq

def Block.text (registry : String → Option EvidenceDescriptor) (draft : VerifiedReportDraft F) :
    Block F → String
  | .title => "# " ++ substituteNumbers draft.title (reportNumbers draft) ++ "\n\n"
  | .summary =>
    Text.trim (substituteNumbers draft.executiveSummary (reportNumbers draft)) ++ "\n\n"
  | .heading text => "## " ++ text ++ "\n\n"
  | .prose claim =>
    "- 【" ++ claim.kind.displayLabel ++ "】" ++
      Text.trim (substituteNumbers claim.statement (declaredNumbers claim)) ++
      citationMarks (numbersFor (referenceOrder draft) claim.evidenceIds) ++ "\n"
  | .number item =>
    "    - " ++ item.label ++ "：" ++ PrintedFloat.display item.value ++
      (item.unit.map (" " ++ ·)).getD "" ++ "（" ++ item.provenance.displayLabel ++
      (item.provenance.operation.map (" · " ++ ·)).getD "" ++
      citationMarks (numbersFor (referenceOrder draft) item.provenance.referencedEvidence) ++ "）\n"
  | .assumption text => "    - 假设：" ++ text ++ "\n"
  | .uncertainty text => "    - 不确定性：" ++ text ++ "\n"
  | .conflicts ids =>
    "    - 来源冲突已披露：" ++ bracketed (numbersFor (referenceOrder draft) ids) ++ "\n"
  | .blank => "\n"
  | .overallUncertainty text =>
    "## 主要不确定性\n\n" ++ Text.trim (substituteNumbers text (reportNumbers draft)) ++ "\n\n"
  | .limitationsHeading => "## 局限性\n\n"
  | .limitation text => "- " ++ substituteNumbers text (reportNumbers draft) ++ "\n"
  | .referencesHeading => "## 证据\n\n"
  | .reference n id =>
    "[" ++ toString n ++ "] " ++
      ((registry id).map EvidenceDescriptor.displayLabel).getD "未知来源" ++ " · " ++
      ((registry id).map EvidenceDescriptor.trustLabel).getD "证据不足" ++ "\n"

/-- What is printed of a claim. -/
def claimBlocks (draft : VerifiedReportDraft F) (claim : Claim F) : List (Block F) :=
  .prose claim :: (ownLineItems claim).map .number ++ claim.assumptions.map .assumption ++
    claim.uncertainty.toList.map .uncertainty ++
    if numbersFor (referenceOrder draft) claim.disclosedConflicts = [] then []
    else [.conflicts claim.disclosedConflicts]

/-- What is printed of a section. -/
def sectionBlocks (draft : VerifiedReportDraft F) (part : ReportSection) : List (Block F) :=
  .heading part.heading :: (sectionClaims draft part).flatMap (claimBlocks draft) ++ [.blank]

/-- What `render_markdown` prints, in order. -/
def markdownBlocks (draft : VerifiedReportDraft F) : List (Block F) :=
  .title :: (if Text.trim draft.executiveSummary = "" then [] else [.summary]) ++
    draft.sections.flatMap (sectionBlocks draft) ++
    draft.overallUncertainty.toList.map .overallUncertainty ++
    (if draft.limitations = [] then []
    else .limitationsHeading :: draft.limitations.map .limitation ++ [.blank]) ++
    if referenceOrder draft = [] then []
    else .referencesHeading ::
      (referenceOrder draft).mapIdx fun index id => .reference (index + 1) id

/-- `markdown` of the rendered report. -/
def markdown (registry : String → Option EvidenceDescriptor) (draft : VerifiedReportDraft F) :
    String :=
  String.join ((markdownBlocks draft).map (Block.text registry draft))

/-- Does this text leak a canonical identifier? -/
def containsInternalIdentifier (text : String) : Bool := Text.contains text "evf_"

end Astock.Report
