import Astock.Lib.Float64
import Astock.Lib.Json
import Astock.Lib.Spans
import Astock.Lib.Table

/-!
# The report contract

`crates/agent-runtime/src/report.rs`: a draft holds typed claims, every number with its provenance,
and `validate_draft` lists what keeps it from being rendered. The figures of a piece of prose and
the reading of numbers from JSON and from text are given from outside (`FigureReader`): the Runtime
and the Engine share them.

Left out is what validation and the two printed forms do not read: the confidence of a claim, the
field of an observation, the message of an assumption and the unit of a descriptor.
-/

namespace Astock.Report

/-- `REPORT_CONTRACT_VERSION`. -/
def reportContractVersion : String := "astock-report-contract-v1"

def maxClaims : ℕ := 240

def maxSections : ℕ := 24

def maxStatementChars : ℕ := 2000

def maxEvidencePerClaim : ℕ := 12

def maxNumericItemsPerClaim : ℕ := 16

/-- What kind of assertion a claim makes. -/
inductive ClaimKind
  | observedFact
  | deterministicCalculation
  | inference
  | estimate
  | scenario
  | unknown
  deriving DecidableEq, Repr

def ClaimKind.displayLabel : ClaimKind → String
  | .observedFact => "事实"
  | .deterministicCalculation => "计算"
  | .inference => "推断"
  | .estimate => "估算"
  | .scenario => "情景"
  | .unknown => "未知"

/-- Where a number came from. -/
inductive NumericProvenance (F : Type)
  | observed (evidenceId : String)
  | calculated (calculationEvidenceId operation : String) (inputEvidenceIds : List String)
  | userAssumption
  | estimated (method : String) (basisEvidenceIds : List String) (range : Option (F × F))
  deriving DecidableEq

/-- Which provenance classes a claim of a kind may carry. -/
def ClaimKind.permits {F : Type} : ClaimKind → NumericProvenance F → Bool
  | .observedFact, .observed _ => true
  | .deterministicCalculation, .calculated _ _ _ | .deterministicCalculation, .observed _ => true
  | .estimate, .estimated _ _ _ => true
  | .scenario, .userAssumption | .scenario, .calculated _ _ _ | .scenario, .estimated _ _ _ => true
  | _, _ => false

/-- Canonical identifiers a provenance depends on. -/
def NumericProvenance.referencedEvidence {F : Type} : NumericProvenance F → List String
  | .observed evidenceId => [evidenceId]
  | .calculated calculationEvidenceId _ inputEvidenceIds => calculationEvidenceId :: inputEvidenceIds
  | .userAssumption => []
  | .estimated _ basisEvidenceIds _ => basisEvidenceIds

def NumericProvenance.isUserAssumption {F : Type} : NumericProvenance F → Bool
  | .userAssumption => true
  | _ => false

/-- One number inside a claim, with its provenance. -/
structure NumericItem (F : Type) where
  value : F
  unit : Option String
  label : String
  provenance : NumericProvenance F
  deriving DecidableEq

/-- A single research assertion. -/
structure Claim (F : Type) where
  id : String
  kind : ClaimKind
  statement : String
  evidenceIds : List String := []
  numericItems : List (NumericItem F) := []
  uncertainty : Option String := none
  assumptions : List String := []
  disclosedConflicts : List String := []
  deriving DecidableEq

/-- An ordered group of claims. -/
structure ReportSection where
  heading : String
  claimIds : List String
  deriving DecidableEq

structure VerifiedReportDraft (F : Type) where
  version : String := reportContractVersion
  title : String
  executiveSummary : String
  sections : List ReportSection
  claims : List (Claim F)
  overallUncertainty : Option String := none
  limitations : List String := []
  deriving DecidableEq

/-- A machine-actionable reason a draft was refused. -/
inductive DraftProblem (F : Type)
  | contractVersionMismatch (supplied expected : String)
  | oversized (what : String) (actual maximum : ℕ)
  | duplicateClaimId (claimId : String)
  | sectionReferencesUnknownClaim (heading claimId : String)
  | claimNotInAnySection (claimId : String)
  | emptyStatement (claimId : String)
  | unknownEvidence (claimId suppliedId : String)
  | missingEvidence (claimId statement : String)
  | unsupportedObservedNumber (claimId label : String) (value : F)
  | missingCalculationProvenance (claimId label : String) (value : F)
  | invalidEstimate (claimId label reason : String)
  | scenarioWithoutAssumption (claimId : String)
  | conflictingEvidence (claimId : String) (evidenceIds : List String)
  | evidenceOutsideTaskScope (claimId evidenceId : String)
  | figureInFreeText (claimId : Option String) (field numeral : String)
  | ambiguousNumberReference (label : String)
  | unknownNumberReference (claimId label : String)
  | numberDisagreesWithEvidence (claimId label : String) (declared : F) (evidenceId : String)
  deriving DecidableEq

/-- What the Runtime knows about one piece of evidence. -/
structure EvidenceDescriptor where
  evidenceId : String
  source : String
  symbol : Option String := none
  field : Option String := none
  value : Option Json := none
  unit : Option String := none
  observedAt : Option String := none
  publishedAt : Option String := none
  documentTitle : Option String := none
  documentLocation : Option String := none
  qualityBlocking : Bool := false
  conflicting : Bool := false
  deriving DecidableEq

/-- Is this a deterministic calculation result rather than an observation? -/
def EvidenceDescriptor.isCalculation (descriptor : EvidenceDescriptor) : Bool :=
  descriptor.source = "astock-compute"

/-- One financial quantity found in a line of report prose. -/
structure ReportNumeral (F : Type) where
  /-- The characters as written, without sign or unit. -/
  raw : String
  /-- Scaled and signed. -/
  value : F
  unit : Option String
  deriving DecidableEq

/-- How figures and numbers are read. -/
structure FigureReader (F : Type) where
  /-- `financial_numerals`: the quantities asserted by one line of prose. -/
  financialNumerals : String → List (ReportNumeral F)
  /-- `Number::as_f64`. -/
  asF64 : Number → F
  /-- `str::parse::<f64>`. -/
  parseF64 : String → Option F

/-- `text.replace(',', "")`. -/
def withoutCommas (text : String) : String := String.ofList (text.toList.filter (· ≠ ','))

section

variable {F : Type} [PrintedFloat F]

def approximatelyEqual (left right : F) : Bool :=
  let tolerance := max (Float64.lit (1 / 100000000))
    (max (PrintedFloat.abs left) (PrintedFloat.abs right) * Float64.lit (1 / 1000000))
  decide (PrintedFloat.abs (left - right) ≤ tolerance)

/-- Would this evidence value support the quantity as written? -/
def ReportNumeral.supportedBy (numeral : ReportNumeral F) (value : F) : Bool :=
  approximatelyEqual value numeral.value ||
    (numeral.unit = some "%" && approximatelyEqual value (numeral.value * Float64.lit 100))

/-- Read a number out of an evidence value, including one recorded as a string. -/
def evidenceNumber (reader : FigureReader F) : Json → Option F
  | .num number => some (reader.asF64 number)
  | .str text => reader.parseF64 (withoutCommas text)
  | _ => none

/-- Labels referenced by `{…}` in a piece of prose, in order of appearance. -/
def placeholderLabels (text : String) : List String :=
  ((Spans.inside ['{'] '}' text.toList).map fun label => Text.trim (String.ofList label)).filter
    (· ≠ "")

/-- Remove `{…}` spans so figure extraction sees prose only. -/
def stripPlaceholders (text : String) : String :=
  String.ofList ((Spans.spans ['{'] '}' text.toList).map fun
    | .inl c => c
    | .inr _ => ' ')

/-- The numbers of all claims, in order. -/
def VerifiedReportDraft.items (draft : VerifiedReportDraft F) : List (NumericItem F) :=
  draft.claims.flatMap (·.numericItems)

/-- One number in the loop of `report_level_numbers`: what is resolved and what is ambiguous. -/
def resolveItem (state : List (String × NumericItem F) × List String) (item : NumericItem F) :
    List (String × NumericItem F) × List String :=
  match Table.find Prod.fst item.label state.1 with
  | some (_, existing) =>
    if PrintedFloat.toBits existing.value ≠ PrintedFloat.toBits item.value ∨
        existing.unit ≠ item.unit then
      (state.1, item.label :: state.2)
    else (Table.upsert Prod.fst (item.label, item) state.1, state.2)
  | none => (Table.upsert Prod.fst (item.label, item) state.1, state.2)

/-- Numbers a report-level field may reference: every label the claims declare in one way. -/
def reportLevelNumbers (draft : VerifiedReportDraft F) : List (String × NumericItem F) :=
  let (resolved, ambiguous) := draft.items.foldl resolveItem ([], [])
  resolved.filter fun entry => entry.1 ∉ ambiguous

/-- One number in the loop of `ambiguous_report_labels`. -/
def seeItem (state : List (String × ℕ × Option String) × List String) (item : NumericItem F) :
    List (String × ℕ × Option String) × List String :=
  let key := (PrintedFloat.toBits item.value, item.unit)
  match Table.find Prod.fst item.label state.1 with
  | some (_, existing) =>
    if existing ≠ key then (state.1, item.label :: state.2)
    else (Table.upsert Prod.fst (item.label, key) state.1, state.2)
  | none => (Table.upsert Prod.fst (item.label, key) state.1, state.2)

/-- Labels a report-level field references that resolve to more than one value. -/
def ambiguousReportLabels (draft : VerifiedReportDraft F) : List String :=
  (draft.items.foldl seeItem ([], [])).2

/-- The identifiers a claim leans on. -/
def Claim.referenced (claim : Claim F) : List String :=
  claim.evidenceIds ++ claim.numericItems.flatMap fun item => item.provenance.referencedEvidence

/-- `format!("{}{}", item.value, item.unit.unwrap_or_default())`. -/
def NumericItem.token (item : NumericItem F) : String :=
  PrintedFloat.display item.value ++ item.unit.getD ""

end

section Validation

variable {F : Type} [PrintedFloat F] (reader : FigureReader F)
variable (registry : String → Option EvidenceDescriptor) (taskSymbols : List String)

def bound (what : String) (actual maximum : ℕ) : List (DraftProblem F) :=
  if maximum < actual then [.oversized what actual maximum] else []

/-- Does a declared number actually appear in the evidence it cites? -/
def checkValueAgainstEvidence (claim : Claim F) (item : NumericItem F) (evidenceId : String) :
    List (DraftProblem F) :=
  match registry evidenceId with
  | none => []
  | some descriptor =>
    match descriptor.value.bind (evidenceNumber reader) with
    | none => []
    | some evidenceValue =>
      match (reader.financialNumerals item.token).head? with
      | none => []
      | some numeral =>
        if numeral.supportedBy evidenceValue then []
        else [.numberDisagreesWithEvidence claim.id item.label item.value evidenceId]

/-- Quantities an estimate may not stand in for. -/
def computable : List String :=
  ["市值", "market_cap", "pe", "市盈率", "pb", "市净率", "涨跌幅", "change_pct"]

/-- The problems of an estimate. -/
def validateEstimate (claim : Claim F) (item : NumericItem F) (method : String)
    (basisEvidenceIds : List String) (range : Option (F × F)) : List (DraftProblem F) :=
  (if Text.trim method = "" ∨ basisEvidenceIds = [] then
    [.invalidEstimate claim.id item.label
      "an estimate must name its method and its basis evidence"]
  else []) ++
  (if computable.any fun needle => Text.contains method needle || Text.contains item.label needle
  then
    [.invalidEstimate claim.id item.label
      "this quantity is deterministically computable; use a calculation rather than an estimate"]
  else []) ++
  match range with
  | some (low, high) =>
    if high < low then [.invalidEstimate claim.id item.label "range bounds are inverted"] else []
  | none => []

def validateNumericItem (claim : Claim F) (item : NumericItem F) : List (DraftProblem F) :=
  (if claim.kind.permits item.provenance then []
  else [.unsupportedObservedNumber claim.id item.label item.value]) ++
  match item.provenance with
  | .observed evidenceId =>
    (if (registry evidenceId).any EvidenceDescriptor.isCalculation then
      [.missingCalculationProvenance claim.id item.label item.value]
    else []) ++
    checkValueAgainstEvidence reader registry claim item evidenceId
  | .calculated calculationEvidenceId operation inputEvidenceIds =>
    (if Text.trim operation = "" ∨ inputEvidenceIds = [] then
      [.missingCalculationProvenance claim.id item.label item.value]
    else []) ++
    (if (registry calculationEvidenceId).any fun descriptor => !descriptor.isCalculation then
      [.missingCalculationProvenance claim.id item.label item.value]
    else []) ++
    checkValueAgainstEvidence reader registry claim item calculationEvidenceId
  | .userAssumption => []
  | .estimated method basisEvidenceIds range =>
    validateEstimate claim item method basisEvidenceIds range

/-- The problems of one identifier a claim leans on. -/
def validateReference (claim : Claim F) (id : String) : List (DraftProblem F) :=
  match registry id with
  | none => [.unknownEvidence claim.id id]
  | some descriptor =>
    match descriptor.symbol with
    | none => []
    | some symbol =>
      if taskSymbols ≠ [] ∧ symbol ∉ taskSymbols then [.evidenceOutsideTaskScope claim.id id]
      else []

/-- A known conflict must be stated, not quietly resolved. -/
def validateConflicts (claim : Claim F) : List (DraftProblem F) :=
  let conflicting := claim.referenced.filter fun id =>
    (registry id).any EvidenceDescriptor.conflicting
  let undisclosed := conflicting.filter fun id => id ∉ claim.disclosedConflicts
  if undisclosed = [] then [] else [.conflictingEvidence claim.id undisclosed]

/-- What the kind of a claim asks for. -/
def validateKind (claim : Claim F) : List (DraftProblem F) :=
  match claim.kind with
  | .observedFact | .inference =>
    if claim.evidenceIds = [] then [.missingEvidence claim.id claim.statement] else []
  | .scenario =>
    if claim.assumptions = [] ∧
        !(claim.numericItems.any fun item => item.provenance.isUserAssumption) then
      [.scenarioWithoutAssumption claim.id]
    else []
  | .deterministicCalculation | .estimate | .unknown => []

def validateClaim (claim : Claim F) : List (DraftProblem F) :=
  (if Text.trim claim.statement = "" then [.emptyStatement claim.id] else []) ++
  bound ("statement of " ++ claim.id) claim.statement.length maxStatementChars ++
  bound ("evidence of " ++ claim.id) claim.evidenceIds.length maxEvidencePerClaim ++
  bound ("numeric items of " ++ claim.id) claim.numericItems.length maxNumericItemsPerClaim ++
  claim.referenced.flatMap (validateReference registry taskSymbols claim) ++
  validateConflicts registry claim ++
  validateKind claim ++
  claim.numericItems.flatMap (validateNumericItem reader registry claim) ++
  ((placeholderLabels claim.statement).filter fun label =>
    !(claim.numericItems.any fun item => item.label = label)).map
      (.unknownNumberReference claim.id ·)

/-- The references of a report-level field. -/
def checkReferences (draft : VerifiedReportDraft F) (field text : String) :
    List (DraftProblem F) :=
  (placeholderLabels text).filterMap fun label =>
    if label ∈ ambiguousReportLabels draft then some (.ambiguousNumberReference label)
    else if label ∈ (reportLevelNumbers draft).map Prod.fst then none
    else some (.unknownNumberReference field label)

/-- The figures of a text that no value backs. -/
def checkFigures (claimId : Option String) (field text : String) (backing : List F) :
    List (DraftProblem F) :=
  ((reader.financialNumerals (stripPlaceholders text)).filter fun numeral =>
    !backing.any numeral.supportedBy).map fun numeral =>
      .figureInFreeText claimId field numeral.raw

/-- The limitations with the names of their fields. -/
def limitationFields (draft : VerifiedReportDraft F) : List (String × String) :=
  draft.limitations.mapIdx fun index limitation => (s!"limitations[{index}]", limitation)

/-- The overall uncertainty with the name of its field. -/
def uncertaintyField (draft : VerifiedReportDraft F) : List (String × String) :=
  draft.overallUncertainty.toList.map (("overall_uncertainty", ·))

/-- What a claim declares and what it cites. -/
def claimBacking (claim : Claim F) : List F :=
  claim.numericItems.map (·.value) ++
    ((claim.evidenceIds.filterMap registry).filterMap (·.value)).filterMap (evidenceNumber reader)

/-- The figures in the prose of a claim. -/
def checkClaimProse (claim : Claim F) : List (DraftProblem F) :=
  let backing := claimBacking reader registry claim
  checkFigures reader (some claim.id) "statement" claim.statement backing ++
  (claim.uncertainty.toList.flatMap fun uncertainty =>
    checkFigures reader (some claim.id) "uncertainty" uncertainty backing) ++
  (claim.assumptions.mapIdx fun index assumption =>
    checkFigures reader (some claim.id) s!"assumptions[{index}]" assumption backing).flatten

def validateFreeText (draft : VerifiedReportDraft F) : List (DraftProblem F) :=
  let prose := ("title", draft.title) :: ("executive_summary", draft.executiveSummary) ::
    uncertaintyField draft ++ limitationFields draft
  let reportBacking := (reportLevelNumbers draft).map fun entry => entry.2.value
  (prose.flatMap fun field => checkReferences draft field.1 field.2) ++
  (prose.flatMap fun field => checkFigures reader none field.1 field.2 reportBacking) ++
  (draft.sections.flatMap fun part =>
    checkFigures reader none ("sections[" ++ part.heading ++ "].heading") part.heading
      reportBacking) ++
  draft.claims.flatMap (checkClaimProse reader registry)

/-- The claims whose identifier an earlier claim has, in order. -/
def duplicateIds : List String → List String → List String
  | _, [] => []
  | seen, id :: ids => if id ∈ seen then id :: duplicateIds seen ids else duplicateIds (id :: seen) ids

/-- Every claim must be placed, and every placement must resolve. -/
def validatePlacement (draft : VerifiedReportDraft F) : List (DraftProblem F) :=
  let ids := draft.claims.map (·.id)
  (draft.sections.flatMap fun part =>
    (part.claimIds.filter (· ∉ ids)).map (.sectionReferencesUnknownClaim part.heading ·)) ++
  (ids.filter (· ∉ draft.sections.flatMap (·.claimIds))).map (.claimNotInAnySection ·)

/-- Every problem of a draft; none when it is structurally publishable. -/
def validateDraft (draft : VerifiedReportDraft F) : List (DraftProblem F) :=
  (if draft.version ≠ reportContractVersion then
    [.contractVersionMismatch draft.version reportContractVersion]
  else []) ++
  bound "claims" draft.claims.length maxClaims ++
  bound "sections" draft.sections.length maxSections ++
  (duplicateIds [] (draft.claims.map (·.id))).map (.duplicateClaimId ·) ++
  validatePlacement draft ++
  draft.claims.flatMap (validateClaim reader registry taskSymbols) ++
  validateFreeText reader registry draft

end Validation

end Astock.Report
