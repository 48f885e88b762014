import Astock.Spec.World

/-!
# Handling a submitted report

`finalize_report` of `runtime.rs`: a draft is decoded, checked against the
contract, rendered and verified; whatever fails is counted by the ledger and
answered with a repair response. The renderer's `debug_assert` is not compiled
into a release build and is left out.
-/

namespace Astock

open Prog

structure RunOutcome where
  taskId : String
  report : String
  evidenceIds : List String
  deriving DecidableEq

/-- What one `submit_report` call came to. -/
inductive Finalization (Rendered : Type) where
  | published (rendered : Rendered)
  | repair (response : Json)
  | exhausted (response : Json) (reason : String)

/-- `MAX_REPORTED_PROBLEMS`. -/
def maxReportedProblems : ℕ := 40

/-- The answer to a rejected submission. -/
def RepairVerdict.answer {R : Type} (verdict : RepairVerdict) (response : Json) (reason : String) :
    Finalization R :=
  match verdict with
  | .exhausted _ _ => .exhausted response reason
  | .retry _ _ _ => .repair response

/-- The response to a draft that does not decode. -/
def decodeRepair (error : String) (attempts : ℕ) (verdict : RepairVerdict) : Json := .ofFields [
  ("ok", .bool false),
  ("stage", .str "decode"),
  ("error", .str error),
  ("attempt", .ofNat attempts),
  ("instruction", .str (
    if verdict.isExhausted then
      "No finalization attempts remain. The report will not be published."
    else
      "The draft did not match the submit_report schema, so no claim was read. The error names the exact field: fix that field and resubmit the complete draft. A numeric item must carry every field its provenance requires: observed needs evidence_id; calculated needs calculation_evidence_id, operation and input_evidence_ids; estimated needs method and basis_evidence_ids."))]

def taskSpec (rfc3339 date : Instant → String) (task : RuntimeTask) (now : Instant) : Json :=
  .ofFields [
    ("objective", .str task.objective),
    ("security_universe", .arr [.str (task.symbol.getD "A股市场")]),
    ("as_of", .str (rfc3339 now)),
    ("research_start", .str (date (now - 365 * 86400 * 1000000000))),
    ("research_end", .str (date now)),
    ("investment_horizon", .str "用户未指定；按中期研究框架并标为假设"),
    ("comparison_benchmark", .str "000300"),
    ("output_type", .str (if Text.contains task.objective "计划" then "manual_plan"
      else "research_report")),
    ("evidence_requirement", .str "strict")]

/-- The strings of the `findings` of a verification. -/
def verificationFindings (verification : Json) : List String :=
  (((verification.get? "findings").bind Json.asArray).getD []).filterMap Json.asStr

def verifierFinding (code : String) : AgentEvent :=
  .verificationFinding {
    code, message := s!"独立确定性校验阻止发布：{code}", blocking := true }

namespace AgentRuntime

variable (A : AgentRuntime)

def problemFinding (problem : A.reports.Problem) : AgentEvent :=
  .verificationFinding {
    code := A.reports.problemCode problem
    message := s!"报告契约校验未通过：{A.reports.problemCode problem}" ++
      ((A.reports.problemClaimId problem).map fun id => s!"（结论 {id}）").getD ""
    blocking := true }

/-- `RuntimeTask::verification_spec`. -/
def verificationSpec (task : RuntimeTask) : RunM A Json := do
  let t ← A.tick
  pure (taskSpec A.platform.rfc3339 A.platform.date task (A.env.now t))

/-- Count a rejected submission. -/
def recordRejection (fingerprint : String) : RunM A RepairVerdict := do
  let w ← get
  A.modifyRun fun r =>
    { r with finalization := (w.run.finalization.recordRejection fingerprint).1 }
  A.observe (.verdict (w.run.finalization.recordRejection fingerprint).2)
  pure (w.run.finalization.recordRejection fingerprint).2

/-- The verifier did not give a result. -/
def giveUpVerification {α : Type} (effectId message reason : String) : RunM A α := do
  A.failEffect effectId message
  A.observe (.gaveUp .verifierFailed)
  throw (.verificationFailed reason)

def verifyCanonicalReport (task : RuntimeTask) (draft : A.reports.Draft)
    (rendered : A.reports.Rendered) : RunM A Json := do
  let w ← get
  let cited := A.reports.cited draft
  let spec ← A.verificationSpec task
  let effectId ← A.beginEffect "report.verify" (.ofFields [
    ("report_chars", .ofNat (A.reports.verifierMarkdown rendered).length),
    ("claims", .ofNat (A.reports.sectionSizes rendered).sum),
    ("references", .ofNat (A.reports.references rendered).length),
    ("cited_facts", .ofNat cited.length),
    ("contract", .str "structured")])
  let t ← A.tick
  match A.env.execute t "research.agent_report_verify" (.ofFields [
      ("report", .str (A.reports.verifierMarkdown rendered)),
      ("context", .ofFields [
        ("task_spec", spec),
        ("evidence_registry", .ofFields [
          ("facts", .arr (A.reports.verifierFacts w.run.catalog cited))])]),
      ("task_spec", spec)]) with
  | some (.ok result) => do
    A.completeEffect effectId "succeeded" result
    pure result
  | some (.error error) => A.giveUpVerification effectId error error
  | none =>
    A.giveUpVerification effectId "verification timeout" "deterministic verification timed out"

/-- The branch of `finalize_report` for a draft that does not decode. -/
def rejectUndecodable (arguments : Json) (error : String) :
    RunM A (Finalization A.reports.Rendered) := do
  let verdict ← A.recordRejection ("undecodable:" ++ arguments.toText)
  let w ← get
  pure (verdict.answer (decodeRepair error w.run.finalization.attempts verdict)
    s!"the submitted report never matched the contract schema: {error}")

/-- The branch for a draft that breaks the contract. -/
def rejectInvalid (draft : A.reports.Draft) (problems : List A.reports.Problem) :
    RunM A (Finalization A.reports.Rendered) := do
  let verdict ← A.recordRejection (A.reports.fingerprint draft)
  A.recordAll ((problems.take maxReportedProblems).map A.problemFinding)
  let w ← get
  pure (verdict.answer (A.reports.validationRepair problems verdict)
    s!"structured report validation failed after {w.run.finalization.attempts} attempts")

/-- The branch for a draft that the verifier does not pass. -/
def rejectUnverified (draft : A.reports.Draft) (findings : List String) :
    RunM A (Finalization A.reports.Rendered) := do
  A.recordAll ((findings.take maxReportedProblems).map verifierFinding)
  let verdict ← A.recordRejection (A.reports.fingerprint draft)
  pure (verdict.answer (A.reports.verificationRepair findings draft verdict)
    (", ".intercalate findings))

/-- The branch for a draft that keeps the contract. -/
def verifyDraft (task : RuntimeTask) (draft : A.reports.Draft) (rendered : A.reports.Rendered) :
    RunM A (Finalization A.reports.Rendered) := do
  A.modifyRun fun r => r.setPhase .verifying
  A.record .verificationStarted
  let verification ← A.verifyCanonicalReport task draft rendered
  if (verification.get? "passed").bind Json.asBool = some true then
    pure (.published rendered)
  else
    A.rejectUnverified draft (verificationFindings verification)

def finalizeReport (task : RuntimeTask) (arguments : Json) :
    RunM A (Finalization A.reports.Rendered) := do
  let w ← get
  A.observe (.submission w.run.finalization)
  match A.reports.decodeDraft arguments with
  | .error error => A.rejectUndecodable arguments error
  | .ok draft => do
    A.observe .validated
    let problems := A.reports.validateDraft draft w.run.catalog task.symbol.toList
    if !problems.isEmpty then
      A.rejectInvalid draft problems
    else
      A.verifyDraft task draft (A.reports.render draft w.run.catalog)

/-- Publish a report: the last thing a task does. -/
def completeRun (report : String) : RunM A RunOutcome := do
  A.modifyRun fun r => r.setPhase .completed
  let w ← get
  A.record (.completed report w.run.evidenceIds)
  pure { taskId := w.run.taskId, report, evidenceIds := w.run.evidenceIds }

end AgentRuntime

end Astock
