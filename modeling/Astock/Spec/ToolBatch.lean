import Astock.Spec.Finalize

/-!
# One batch of tool calls

`execute_tools` of `runtime.rs`. The calls of a turn are prepared in order
(refused, or recorded and begun as effects); then the Engine runs its calls, up
to `max_parallel_tools` at a time, and they finish in any order; then the runtime
serves its own calls in order.
-/

namespace Astock

open Prog

/-! ## Results for the model -/

structure CompletedTool where
  index : ℕ
  callId : String
  content : Json

def defaultMaxToolResultModelChars : ℕ := 24000

def defaultMaxEvidenceIdsInContext : ℕ := 40

namespace CompletedTool

/-- The part of a result that the model sees. -/
def bounded (value : Json) (shownIds : List String) (maxChars : ℕ) : Json :=
  if value.toText.length ≤ maxChars then .ofFields [
    ("ok", .bool true),
    ("data", value),
    ("evidence_ids", AgentEvent.strings shownIds)]
  else .ofFields [
    ("ok", .bool true),
    ("truncated", .bool true),
    ("data_preview", .str (Text.takeChars maxChars value.toText)),
    ("original_chars", .ofNat value.toText.length),
    ("preview_chars", .ofNat maxChars),
    ("evidence_ids", AgentEvent.strings shownIds),
    ("note", .str "结果超过模型上下文预算，已按前缀截断。完整结果已持久化在证据库中，可通过 evidence_ids 引用；不要把此预览当作完整数据集。")]

/-- Fields added to an object that `bounded` built. -/
def withOmitted (content : Json) (omittedIds : ℕ) : Json :=
  match content with
  | .obj fields => .obj (Json.setField "evidence_note"
      (.str "证据标识过多，仅列出前若干条；其余已记录在任务状态中，可按需引用。")
      (Json.setField "omitted_evidence_ids" (.ofNat omittedIds) fields))
  | other => other

def successBounded (call : ModelToolCall) (value : Json) (evidenceIds : List String)
    (maxChars maxEvidenceIds : ℕ) : CompletedTool where
  index := call.index
  callId := call.id
  content :=
    let content := bounded value (evidenceIds.take maxEvidenceIds) maxChars
    if maxEvidenceIds < evidenceIds.length then
      withOmitted content (evidenceIds.length - maxEvidenceIds)
    else content

def success (call : ModelToolCall) (value : Json) (evidenceIds : List String) : CompletedTool :=
  successBounded call value evidenceIds defaultMaxToolResultModelChars
    defaultMaxEvidenceIdsInContext

def failure (call : ModelToolCall) (message : String) : CompletedTool where
  index := call.index
  callId := call.id
  content := .ofFields [("ok", .bool false), ("error", .str message)]

def runtime (call : ModelToolCall) (content : Json) : CompletedTool where
  index := call.index
  callId := call.id
  content := content

def intoMessage (c : CompletedTool) : Message := .toolResult c.callId c.content.toText

end CompletedTool

/-- `ids.into_iter().collect::<BTreeSet<_>>()`, `sort` and `dedup`. -/
def sortedIds (ids : List String) : List String := ids.dedup.insertionSort (· ≤ ·)

/-- The evidence ids of the facts of a registry. -/
def factIds (object : Json) : List String :=
  ((((object.get? "evidence_registry").bind (·.get? "facts")).bind Json.asArray).getD []).filterMap
    fun fact => (fact.get? "evidence_id").bind Json.asStr

mutual
/-- The evidence ids registered anywhere in a tool result. -/
def collectIds : Json → List String
  | .obj fields => factIds (.obj fields) ++ collectFieldIds fields
  | .arr items => collectItemIds items
  | _ => []
def collectItemIds : List Json → List String
  | [] => []
  | j :: js => collectIds j ++ collectItemIds js
def collectFieldIds : List (String × Json) → List String
  | [] => []
  | (key, j) :: js =>
    if key = "evidence_registry" then collectFieldIds js else collectIds j ++ collectFieldIds js
end

def evidenceIds (value : Json) : List String := sortedIds (collectIds value)

/-! ## Preparation -/

structure PreparedTool where
  call : ModelToolCall
  definition : ToolDefinition
  arguments : Json
  effectId : String

/-- What preparation makes of a call. -/
inductive PreparedCall where
  | rejected (completed : CompletedTool)
  | prepared (tool : PreparedTool)

structure ToolBatch where
  messages : List Message
  published : Option RunOutcome
  finalizationExhausted : Option String

/-- What a `submit_report` call leaves the batch with. -/
inductive Submitted where
  | published (outcome : RunOutcome)
  | refused (completed : CompletedTool) (exhausted : Option String)

/-- Remember a completed call and the evidence it added. -/
def RunState.complete {C : Type} (r : RunState C) (callId : String) (ids : List String) :
    RunState C :=
  { r with
    completedToolIds := r.completedToolIds ++ [callId]
    evidenceIds := sortedIds (r.evidenceIds ++ ids) }

namespace AgentRuntime

variable (A : AgentRuntime)

/-- The arguments of a call to a registered tool, or the complaint about them. -/
def parseArguments (arguments : String) : Except String Json :=
  match A.platform.parseJson arguments with
  | .ok value =>
    if value.isObject then .ok value else .error "tool arguments must be a JSON object"
  | .error error => .error
      s!"arguments were not valid JSON ({error}); if the payload was truncated, re-send a smaller argument object"

/-- Answer a call with a failure; it is not executed. -/
def refuseCall (call : ModelToolCall) (message : String) : RunM A PreparedCall := do
  A.record (.toolFailed call.id call.name message true)
  pure (.rejected (.failure call message))

def refuseUnknown (call : ModelToolCall) : RunM A PreparedCall := do
  A.modifyRun fun r => { r with unknownToolCalls := r.unknownToolCalls + 1 }
  let w ← get
  if A.config.maxUnknownToolRejections < w.run.unknownToolCalls then do
    A.observe (.gaveUp .unknownTool)
    throw (.unknownTool call.name)
  else
    A.refuseCall call
      (s!"no such tool `{call.name}`; it was not executed. Registered tools: " ++
        ", ".intercalate A.tools.names)

/-- Record a call and begin its effect. -/
def scheduleCall (call : ModelToolCall) (definition : ToolDefinition) (arguments : Json) :
    RunM A PreparedCall := do
  A.record (.toolScheduled call.id call.name)
  let effectId ← A.beginEffect ("tool." ++ call.name)
    (.ofFields [("call_id", .str call.id), ("arguments", arguments)])
  A.record (.toolStarted call.id call.name)
  pure (.prepared { call, definition, arguments, effectId })

def prepareCall (call : ModelToolCall) : RunM A PreparedCall :=
  match A.tools.get call.name with
  | none => A.refuseUnknown call
  | some definition =>
    match A.parseArguments call.arguments with
    | .error message => A.refuseCall call message
    | .ok arguments => A.scheduleCall call definition arguments

/-- Prepare the calls of a turn in order. -/
def prepareAll : List ModelToolCall → RunM A (List CompletedTool × List PreparedTool)
  | [] => pure ([], [])
  | call :: rest => do
    let p ← A.prepareCall call
    let (rejected, prepared) ← prepareAll rest
    match p with
    | .rejected completed => pure (completed :: rejected, prepared)
    | .prepared tool => pure (rejected, tool :: prepared)

/-! ## Engine calls -/

/-- An execution that gave no result within the bounds. -/
def failExecution (tool : PreparedTool) (message : String) (retryable : Bool) :
    RunM A CompletedTool := do
  A.failEffect tool.effectId message
  A.record (.toolFailed tool.call.id tool.call.name message retryable)
  pure (.failure tool.call message)

def recordEvidence (callId : String) (ids : List String) : RunM A Unit :=
  if ids.isEmpty then pure () else A.record (.evidenceAdded callId ids)

def succeedExecution (task : RuntimeTask) (tool : PreparedTool) (value : Json) :
    RunM A CompletedTool := do
  let ids := evidenceIds value
  A.completeEffect tool.effectId "succeeded" value
  A.modifyRun fun r => { r with
    catalog := A.reports.ingest r.catalog value
      (((tool.arguments.get? "symbol").bind Json.asStr).or task.symbol) }
  A.record (.toolCompleted tool.call.id tool.call.name ids)
  A.recordEvidence tool.call.id ids
  A.modifyRun fun r => RunState.complete r tool.call.id ids
  pure (.success tool.call value ids)

/-- Settle one execution that has ended. -/
def settleExecution (task : RuntimeTask) (tool : PreparedTool)
    (result : Option (Except String Json)) : RunM A CompletedTool :=
  match result with
  | some (.ok value) =>
    if A.config.maxToolResultBytes < value.textLen then
      A.failExecution tool (RuntimeError.toolResultTooLarge tool.call.name value.textLen
        A.config.maxToolResultBytes).message false
    else A.succeedExecution task tool value
  | some (.error message) => A.failExecution tool message false
  | none => A.failExecution tool s!"tool timed out after {tool.definition.timeout.debug}" true

/-- The position of the call that finishes first: one of those in flight. -/
def nextFinished (t : ℕ) (remaining : List PreparedTool) : ℕ :=
  A.env.pick t % min (max A.config.maxParallelTools 1) remaining.length

/-- Run the remaining Engine calls; the first `max_parallel_tools` are in flight. -/
def executeAll (task : RuntimeTask) : ℕ → List PreparedTool → RunM A (List CompletedTool)
  | 0, _ => pure []
  | _ + 1, [] => pure []
  | n + 1, first :: rest => do
    let t ← A.tick
    let remaining := first :: rest
    let tool := remaining.getD (A.nextFinished t remaining) first
    A.ensureActive
    let completed ← A.settleExecution task tool
      (A.env.execute t tool.definition.engineKind tool.arguments)
    let others ← executeAll task n (remaining.eraseIdx (A.nextFinished t remaining))
    pure (completed :: others)

/-! ## Runtime calls -/

def searchResponse (catalog : A.reports.Catalog) (arguments : Json) : Json :=
  match A.reports.decodeQuery arguments with
  | .ok query => A.reports.search catalog query
  | .error error => .ofFields [
    ("ok", .bool false),
    ("error", .str error),
    ("instruction", .str "Correct the search arguments and try again.")]

def searchEvidence (tool : PreparedTool) : RunM A CompletedTool := do
  let w ← get
  let response := A.searchResponse w.run.catalog tool.arguments
  A.completeEffect tool.effectId "succeeded" response
  A.record (.toolCompleted tool.call.id tool.call.name [])
  pure (.runtime tool.call response)

/-- Complete the call of a report that passed, and publish it. -/
def publish (tool : PreparedTool) (rendered : A.reports.Rendered) : RunM A Submitted := do
  A.completeEffect tool.effectId "succeeded" (.ofFields [("published", .bool true)])
  A.observe .accepted
  A.record (.toolCompleted tool.call.id tool.call.name (A.reports.references rendered))
  let outcome ← A.completeRun (A.reports.markdown rendered)
  pure (.published outcome)

/-- Answer a report that was refused. -/
def refuseReport (tool : PreparedTool) (result : Json) (message : String) (retryable : Bool)
    (response : Json) (exhausted : Option String) : RunM A Submitted := do
  A.completeEffect tool.effectId "failed" result
  A.record (.toolFailed tool.call.id tool.call.name message retryable)
  pure (.refused (.runtime tool.call response) exhausted)

def submitReport (task : RuntimeTask) (tool : PreparedTool) : RunM A Submitted := do
  let outcome ← A.finalizeReport task tool.arguments
  match outcome with
  | .published rendered => A.publish tool rendered
  | .repair response =>
    A.refuseReport tool (.ofFields [("published", .bool false)])
      "报告未通过发布前校验，已返回结构化修复指引" true response none
  | .exhausted response reason =>
    A.refuseReport tool (.ofFields [("published", .bool false), ("exhausted", .bool true)])
      "报告发布预算已用尽，拒绝发布" false response (some reason)

/-- A call that the runtime advertises but does not serve. -/
def noHandler {α : Type} (name : String) : RunM A α := do
  A.observe (.gaveUp .noHandler)
  throw (.unknownTool name)

/-- Serve the runtime's own calls in order; `exhausted` is what an earlier one left. -/
def serveAll (task : RuntimeTask) (exhausted : Option String) :
    List PreparedTool → RunM A ToolBatch
  | [] => pure { messages := [], published := none, finalizationExhausted := exhausted }
  | tool :: rest => do
    A.ensureActive
    if tool.definition.name = "search_evidence" then do
      let completed ← A.searchEvidence tool
      let batch ← serveAll task exhausted rest
      pure { batch with messages := completed.intoMessage :: batch.messages }
    else if tool.definition.name = "submit_report" then do
      let submitted ← A.submitReport task tool
      match submitted with
      | .published outcome =>
        pure { messages := [], published := some outcome, finalizationExhausted := exhausted }
      | .refused completed reason => do
        let batch ← serveAll task (reason.or exhausted) rest
        pure { batch with messages := completed.intoMessage :: batch.messages }
    else A.noHandler tool.definition.name

def executeTools (task : RuntimeTask) (calls : List ModelToolCall) : RunM A ToolBatch := do
  let (rejected, prepared) ← A.prepareAll calls
  let engineCalls := prepared.filter (·.definition.handler ≠ .runtime)
  let runtimeCalls := prepared.filter (·.definition.handler = .runtime)
  let executed ← A.executeAll task engineCalls.length engineCalls
  let completed := (rejected ++ executed).insertionSort (·.index ≤ ·.index)
  let batch ← A.serveAll task none (runtimeCalls.insertionSort (·.call.index ≤ ·.call.index))
  pure { batch with messages := completed.map (·.intoMessage) ++ batch.messages }

end AgentRuntime

end Astock
