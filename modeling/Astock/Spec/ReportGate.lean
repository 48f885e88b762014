import Astock.Lib.Registry
import Astock.Spec.ReportVerifier
import Mathlib.Data.String.Basic
import Mathlib.Order.WithBot

/-!
# The publication gate

The rest of `crates/engine/src/report_verification.rs`: the evidence registries of a research context
are collected, and the context is checked against the task contract before a report is verified
with it.
-/

namespace Astock

/-- `serde_json::from_value::<EvidenceFact>`: an object, or an array of its fields. -/
def EvidenceFact.ofJson : Json → Option EvidenceFact
  | .arr [evidenceId, path, value, source, observedAt, sourceVersionId, qualityBlocking] => do
    return {
      evidenceId := ← evidenceId.asStr
      path := ← path.asStr
      value
      source := ← source.asStr
      observedAt := ← Json.nullable Json.asStr observedAt
      sourceVersionId := ← Json.nullable Json.asStr sourceVersionId
      qualityBlocking := ← qualityBlocking.asBool }
  | row =>
    if row.knows ["evidence_id", "path", "value", "source", "observed_at", "source_version_id",
        "quality_blocking"] then do
      return {
        evidenceId := ← row.field "evidence_id" Json.asStr
        path := ← row.field "path" Json.asStr
        value := ← row.get? "value"
        source := ← row.field "source" Json.asStr
        observedAt := ← row.fieldOr "observed_at" none (Json.nullable Json.asStr)
        sourceVersionId := ← row.fieldOr "source_version_id" none (Json.nullable Json.asStr)
        qualityBlocking := ← row.field "quality_blocking" Json.asBool }
    else none

structure TaskSpec where
  objective : String
  securityUniverse : List String
  asOf : String
  researchStart : String
  researchEnd : String
  investmentHorizon : String
  comparisonBenchmark : String
  outputType : String
  evidenceRequirement : String
  deriving DecidableEq

def TaskSpec.toJson (spec : TaskSpec) : Json :=
  .ofFields [("objective", .str spec.objective),
    ("security_universe", .arr (spec.securityUniverse.map .str)), ("as_of", .str spec.asOf),
    ("research_start", .str spec.researchStart), ("research_end", .str spec.researchEnd),
    ("investment_horizon", .str spec.investmentHorizon),
    ("comparison_benchmark", .str spec.comparisonBenchmark), ("output_type", .str spec.outputType),
    ("evidence_requirement", .str spec.evidenceRequirement)]

namespace Report

def maxContextBytes : ℕ := 6 * 1024 * 1024

/-- A number as it is compared: a negative zero equals a zero. -/
def unsignZero : Number → Number
  | .float "-0.0" => .float "0.0"
  | n => n

mutual
/-- A document as it is compared. -/
def compared : Json → Json
  | .num n => .num (unsignZero n)
  | .arr items => .arr (comparedItems items)
  | .obj fields => .obj (comparedFields fields)
  | j => j
def comparedItems : List Json → List Json
  | [] => []
  | j :: js => compared j :: comparedItems js
def comparedFields : List (String × Json) → List (String × Json)
  | [] => []
  | (k, j) :: js => (k, compared j) :: comparedFields js
end

/-- What a fact asserts. -/
structure Assertion where
  value : Json
  source : String
  path : String
  qualityBlocking : Bool
  sourceVersionId : Option String
  deriving DecidableEq

/-- Two facts of one identifier disagree materially when they do not assert the same. -/
def asserts (fact : EvidenceFact) : Assertion where
  value := compared fact.value
  source := fact.source
  path := fact.path
  qualityBlocking := fact.qualityBlocking
  sourceVersionId := fact.sourceVersionId

/-- `observed_at` as an `Option` is ordered: none is before any. -/
def observedAt (fact : EvidenceFact) : WithBot String :=
  match fact.observedAt with
  | some time => (time : WithBot String)
  | none => ⊥

def isRegistrable (fact : EvidenceFact) : Bool :=
  "evf_".toList.isPrefixOf fact.evidenceId.toList && fact.evidenceId.utf8ByteSize ≤ 80

abbrev Registries := Registry EvidenceFact String

/-- A row of a registry; one that is no fact is skipped. -/
def registerRow (r : Registries) (row : Json) : Registries :=
  match EvidenceFact.ofJson row with
  | some fact => Registry.register EvidenceFact.evidenceId asserts observedAt isRegistrable r fact
  | none => r

/-- `object.get("evidence_registry").get("facts")`, as an array. -/
def registryRows (object : Json) : List Json :=
  (((object.get? "evidence_registry").bind (·.get? "facts")).bind Json.asArray).getD []

mutual
def collectRegistries (value : Json) (r : Registries) : Registries :=
  match value with
  | .obj fields => collectChildren fields ((registryRows (.obj fields)).foldl registerRow r)
  | .arr items => collectEach items r
  | _ => r
/-- The loop over the fields of an object. -/
def collectChildren (fields : List (String × Json)) (r : Registries) : Registries :=
  match fields with
  | [] => r
  | (key, child) :: rest =>
    collectChildren rest (if key = "evidence_registry" then r else collectRegistries child r)
/-- The loop over the items of an array. -/
def collectEach (items : List Json) (r : Registries) : Registries :=
  match items with
  | [] => r
  | child :: rest => collectEach rest (collectRegistries child r)
end

structure VerifyReportPayload where
  report : String
  context : Json
  taskSpec : TaskSpec

/-- The registries of the context, and what the task requires. -/
def VerifyReportPayload.researchContext (payload : VerifyReportPayload) : ReportContext :=
  let r := collectRegistries payload.context {}
  { facts := r.rows
    registryConflicts := r.conflicts
    evidenceRequirement := payload.taskSpec.evidenceRequirement }

/-- `verify` with the checks of the context, which come between the check of the report and that of
its lines. -/
def verifyReport {F : Type} [PrintedFloat F] (reader : FigureReader F)
    (payload : VerifyReportPayload) : Except String Verification := do
  let verification ← verify reader payload.researchContext payload.report
  if maxContextBytes < payload.context.textLen then
    throw "研究上下文超过报告校验 IPC 安全预算"
  else if payload.context.get? "task_spec" ≠ some payload.taskSpec.toJson then
    throw "研究上下文与报告校验任务合同不一致"
  else
    return verification

end Report

end Astock
