import Astock.Lib.Lines
import Astock.Spec.Evidence
import Astock.Spec.ReportDraft

/-!
# The report verifier

`crates/engine/src/report_verification.rs`: every line of a report is read for citations and for
figures, and a figure has to be reproduced by a fact that its line cites. The registries of the
research context come as `collect_registries` leaves them; the checks of the context itself, its
size and its task contract, are left out.
-/

namespace Astock.Report

def maxReportChars : ℕ := 120000

/-- What the research context holds. -/
structure ReportContext where
  facts : List EvidenceFact
  registryConflicts : List String
  /-- `task_spec.evidence_requirement`. -/
  evidenceRequirement : String

def ReportContext.get (context : ReportContext) (id : String) : Option EvidenceFact :=
  Table.find EvidenceFact.evidenceId id context.facts

def citations (line : String) : List String :=
  ((Spans.inside ['【', 'E', ':'] '】' line.toList).map fun id => Text.trim (String.ofList id)).filter
    (· ≠ "")

/-- A finding; `Finding.text` is how the verifier writes it. -/
inductive Finding
  | invalidOrConflictingEvidenceId (id : String)
  | unknownEvidenceId (id : String)
  | qualityBlockingEvidence (id : String)
  | evidenceTimeMissing (id : String)
  | evidenceVersionMissing (id : String)
  | evidenceSourceMissing (id : String)
  | numericClaimWithoutEvidence (line : ℕ)
  | numericClaimNotReproduced (line : ℕ) (negative : Bool) (raw : String)
  | insufficientDistinctEvidence (cited minimum : ℕ)
  | reportContainsNoVerifiableNumericClaims
  deriving DecidableEq, Repr

def Finding.text : Finding → String
  | .invalidOrConflictingEvidenceId id => "invalid_or_conflicting_evidence_id:" ++ id
  | .unknownEvidenceId id => "unknown_evidence_id:" ++ id
  | .qualityBlockingEvidence id => "quality_blocking_evidence:" ++ id
  | .evidenceTimeMissing id => "evidence_time_missing:" ++ id
  | .evidenceVersionMissing id => "evidence_version_missing:" ++ id
  | .evidenceSourceMissing id => "evidence_source_missing:" ++ id
  | .numericClaimWithoutEvidence line => "numeric_claim_without_evidence:line_" ++ toString line
  | .numericClaimNotReproduced line negative raw =>
    "numeric_claim_not_reproduced:line_" ++ toString line ++ ":" ++
      (if negative then "-" else "") ++ raw
  | .insufficientDistinctEvidence cited minimum =>
    "insufficient_distinct_evidence:" ++ toString cited ++ "<" ++ toString minimum
  | .reportContainsNoVerifiableNumericClaims => "report_contains_no_verifiable_numeric_claims"

/-- The findings about a figure. -/
def Finding.IsNumeric : Finding → Prop
  | .numericClaimWithoutEvidence _ | .numericClaimNotReproduced _ _ _ => True
  | _ => False

/-- What the verifier answers. The findings are a set: their order and repetitions do not count. -/
structure Verification where
  passed : Bool
  findings : List Finding
  distinctCitations : ℕ
  numericClaimsChecked : ℕ
  registryFacts : ℕ
  deriving DecidableEq

/-- `value.is_none_or(|value| value.trim().is_empty())`. -/
def isMissing (value : Option String) : Bool := value.all fun text => Text.trim text = ""

/-- What is wrong with one citation. -/
def citationFinding (context : ReportContext) (id : String) : List Finding :=
  if id ∈ context.registryConflicts then [.invalidOrConflictingEvidenceId id]
  else
    match context.get id with
    | none => [.unknownEvidenceId id]
    | some fact =>
      if fact.qualityBlocking then [.qualityBlockingEvidence id]
      -- a calculation has no observation time; its inputs carry the timestamps
      else if fact.source = "astock-compute" then []
      else if isMissing fact.observedAt then [.evidenceTimeMissing id]
      else if isMissing fact.sourceVersionId then [.evidenceVersionMissing id]
      else if Text.trim fact.source = "" then [.evidenceSourceMissing id]
      else []

/-- `segmented_contract_path` of a path. -/
def segmentedPath (path : String) : Bool :=
  ["date", "time", "published_at", "observed_at", "retrieved_at", "investment_horizon"].any
    (Text.contains path.toLower)

/-- Does a text that is no number name a figure without a unit? -/
def namesNumeral {F : Type} (path value : String) (numeral : ReportNumeral F) : Bool :=
  let normalizedValue := withoutCommas value
  let normalizedRaw := withoutCommas numeral.raw
  numeral.unit.isNone && (normalizedValue = normalizedRaw ||
    (segmentedPath path &&
      (normalizedValue.toList.splitOnP (!·.isDigit)).any (· = normalizedRaw.toList)))

variable {F : Type} [PrintedFloat F] (reader : FigureReader F)

def factSupportsNumeral (fact : EvidenceFact) (numeral : ReportNumeral F) : Bool :=
  match fact.value with
  | .num number => numeral.supportedBy (reader.asF64 number)
  | .str value =>
    match reader.parseF64 (withoutCommas value) with
    | some value =>
      approximatelyEqual value numeral.value ||
        (numeral.unit = some "%" && approximatelyEqual value (numeral.value * Float64.lit 100))
    | none => namesNumeral fact.path value numeral
  | _ => false

/-- The findings about the figures of line `index`, from 0. -/
def numericFindings (context : ReportContext) (index : ℕ) (line : String) : List Finding :=
  let ids := citations line
  let claims := reader.financialNumerals line
  if claims = [] then []
  else if ids = [] then [.numericClaimWithoutEvidence (index + 1)]
  else
    (claims.filter fun claim =>
      !ids.any fun id => (context.get id).any (factSupportsNumeral reader · claim)).map fun claim =>
        .numericClaimNotReproduced (index + 1) (claim.value < Float64.lit 0) claim.raw

def minimumCitations (context : ReportContext) : ℕ :=
  if context.evidenceRequirement = "standard" then 4 else 8

/-- The findings about single lines. -/
def lineFindings (context : ReportContext) (lines : List String) : List Finding :=
  (lines.mapIdx fun index line =>
    (citations line).flatMap (citationFinding context) ++ numericFindings reader context index line).flatten

def verify (context : ReportContext) (report : String) : Except String Verification :=
  let report := Text.trim report
  if report = "" ∨ maxReportChars < report.length then .error "报告为空或超过 120000 字符上限"
  else
    let lines := Text.lines report
    let cited := (lines.flatMap citations).dedup.length
    let numericClaims := (lines.map fun line => (reader.financialNumerals line).length).sum
    let findings := lineFindings reader context lines ++
      (if cited < minimumCitations context then
        [.insufficientDistinctEvidence cited (minimumCitations context)]
      else []) ++
      if numericClaims = 0 then [.reportContainsNoVerifiableNumericClaims] else []
    .ok {
      passed := findings.isEmpty
      findings
      distinctCitations := cited
      numericClaimsChecked := numericClaims
      registryFacts := context.facts.length }

end Astock.Report
