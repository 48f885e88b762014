import Astock.Spec.ToolBatch

/-!
# A run of a task

`execute_loop` and `execute_task` of `runtime.rs`. A round asks the model for a
turn, replaying a turn that is empty, and then either handles its tool calls or
answers its prose; a published report is the only way to succeed. Whatever error
ends the loop is recorded as the terminal event of the task.

The loops recurse on the allowance they use up: the rounds, replays and chunks
that are left.
-/

namespace Astock

open Prog

/-- The state of a streamed turn. -/
structure TurnAcc where
  text : String := ""
  visibleChars : ℕ := 0
  partialCalls : PartialCalls := []

/-- The instruction sent when a replay of an empty turn was empty too. -/
def replayInstruction : Message := .text .system
  "Your previous turn returned nothing. Respond with exactly one of: a tool call that advances the research, or submit_report with the claims the evidence already supports. Do not reply with an empty turn."

/-- The instruction sent when the research budget is spent. -/
def budgetInstruction : Message := .text .system
  "The research budget for this task is spent, so the retrieval tools have been withdrawn. Only search_evidence, run_financial_calculation and submit_report remain. Finalize with the evidence already gathered and state remaining gaps as limitations or as claims of kind=unknown rather than asserting them."

/-- The instruction sent in answer to prose. -/
def proseInstruction : Message := .text .system
  "That answer was not published: prose is not a publishable report. Call submit_report with typed claims. Use search_evidence for canonical identifiers, give every material number a provenance, and state what the evidence does not support as a limitation or as kind=unknown."

/-- The message of a turn with tool calls. -/
def turnMessage (text : String) (calls : List ModelToolCall) : Message :=
  { role := .assistant, content := text, toolCalls := calls }

/-- `ProviderErrorKind::Network`, retryable. -/
def networkError (message : String) : RuntimeError :=
  .provider { kind := .network, message, retryable := true }

namespace AgentRuntime

variable (A : AgentRuntime)

/-- Fail an effect and leave. -/
def failWith {α : Type} (effectId message : String) (error : RuntimeError) : RunM A α := do
  A.failEffect effectId message
  throw error

def failMalformedStream {α : Type} (effectId message : String) : RunM A α :=
  A.failWith effectId message (malformedProvider message)

/-! ## Model selection -/

def selectModel : RunM A String := do
  let effectId ← A.beginEffect "provider.model.select"
    (.ofFields [("provider", .str A.providerName)])
  let selection ← A.race A.env.selectedModel
  match selection with
  | .cancelled => A.failWith effectId "cancelled during provider model discovery" .cancelled
  | .elapsed =>
    A.failWith effectId "provider model discovery timed out"
      (networkError "provider model discovery timed out")
  | .ready (.error error) => A.failWith effectId error.message (.provider error)
  | .ready (.ok model) => do
    A.completeEffect effectId "succeeded" (.ofFields [("model", .str model)])
    pure model

/-! ## One turn -/

/-- The next chunk of a stream, or `none` at its end. -/
def nextChunk (effectId : String) : RunM A (Option ModelChunk) := do
  A.ensureActive
  let next ← A.race A.env.next
  match next with
  | .cancelled => A.failWith effectId "cancelled during provider stream" .cancelled
  | .elapsed =>
    A.failWith effectId "provider stream idle timeout"
      (networkError "provider stream idle timeout")
  | .ready none => pure none
  | .ready (some (.error error)) => A.failWith effectId error.message (.provider error)
  | .ready (some (.ok chunk)) => pure (some chunk)

def absorbText (effectId : String) (acc : TurnAcc) (delta : String) : RunM A TurnAcc :=
  if delta = "" then pure acc
  else if A.config.maxVisibleCharsPerRound < acc.visibleChars + delta.length then
    A.failMalformedStream effectId
      s!"model round exceeded {A.config.maxVisibleCharsPerRound} visible characters"
  else do
    A.record (.textDelta delta)
    pure { acc with text := acc.text ++ delta, visibleChars := acc.visibleChars + delta.length }

def absorbCall (effectId : String) (acc : TurnAcc) (index : ℕ) (id name arguments : Option String) :
    RunM A TurnAcc :=
  if (acc.partialCalls.lookup index).isNone ∧
      A.config.maxToolCallsPerRound ≤ acc.partialCalls.length then
    A.failMalformedStream effectId
      s!"model round exceeded {A.config.maxToolCallsPerRound} tool calls"
  else
    match validateToolFragment id name arguments A.config.maxToolArgumentChars with
    | some message => A.failMalformedStream effectId message
    | none =>
      let p := (acc.partialCalls.entry index).merge id name arguments
      if A.config.maxToolArgumentChars < p.argumentChars then
        A.failMalformedStream effectId
          s!"tool call arguments exceeded {A.config.maxToolArgumentChars} characters"
      else pure { acc with partialCalls := acc.partialCalls.insert index p }

def absorb (effectId : String) (acc : TurnAcc) : ModelChunk → RunM A TurnAcc
  | .textDelta delta => A.absorbText effectId acc delta
  | .toolCallDelta index id name arguments => A.absorbCall effectId acc index id name arguments
  | .finished _ => pure acc

/-- Read a stream to its end; `left` is how many more chunks are allowed. -/
def readStream (effectId : String) : ℕ → TurnAcc → RunM A TurnAcc
  | 0, acc => do
    let chunk ← A.nextChunk effectId
    match chunk with
    | none => pure acc
    | some _ =>
      A.failMalformedStream effectId
        s!"model round exceeded {A.config.maxModelChunksPerRound} streamed chunks"
  | left + 1, acc => do
    let chunk ← A.nextChunk effectId
    match chunk with
    | none => pure acc
    | some chunk => do
      let acc ← A.absorb effectId acc chunk
      readStream effectId left acc

/-- Open a stream. -/
def connect (effectId : String) (request : ModelRequest) : RunM A Unit := do
  let connection ← A.race fun t => A.env.stream t request
  match connection with
  | .cancelled => A.failWith effectId "cancelled during provider connection" .cancelled
  | .elapsed =>
    A.failWith effectId "provider connection timed out"
      (networkError "provider connection timed out")
  | .ready (.error error) => A.failWith effectId error.message (.provider error)
  | .ready (.ok ()) => pure ()

/-- The calls and the text of a turn that was read, or `none` for an empty turn. -/
def closeTurn (effectId : String) (acc : TurnAcc) :
    RunM A (Option (String × List ModelToolCall)) :=
  match acc.partialCalls.finishAll with
  | .error error => A.failWith effectId error.message error
  | .ok calls =>
    if calls.isEmpty && Text.trim acc.text = "" then do
      A.failEffect effectId "model returned neither visible text nor a tool call"
      pure none
    else do
      A.completeEffect effectId "succeeded" (.ofFields [
        ("visible_chars", .ofNat acc.visibleChars),
        ("tool_calls", .ofNat acc.partialCalls.length)])
      pure (some (acc.text, calls))

/-- One attempt at a turn. -/
def attemptTurn (model : String) (round : ℕ) (tools : List ToolDefinition)
    (messages : List Message) : RunM A (Option (String × List ModelToolCall)) := do
  A.observe (.request messages)
  let effectId ← A.beginEffect "provider.stream" (.ofFields [
    ("provider", .str A.providerName),
    ("model", .str model),
    ("round", .ofNat round),
    ("message_count", .ofNat messages.length),
    ("tool_count", .ofNat tools.length)])
  A.connect effectId {
    model, messages, tools, maxTokens := A.config.maxTokens, temperature := A.config.temperature }
  let acc ← A.readStream effectId A.config.maxModelChunksPerRound {}
  A.closeTurn effectId acc

/-- The turn of a round, replaying empty ones; `left` is how many more replays are
allowed. With the turn comes the conversation it answers. -/
def takeTurn (model : String) (round : ℕ) (tools : List ToolDefinition) :
    ℕ → List Message → RunM A ((String × List ModelToolCall) × List Message)
  | 0, messages => do
    let turn ← A.attemptTurn model round tools messages
    match turn with
    | some turn => pure (turn, messages)
    | none => do
      A.record (.modelTurnEmpty round (A.config.maxEmptyTurnRetries + 1) "exhausted")
      throw .emptyModelTurn
  | left + 1, messages => do
    let turn ← A.attemptTurn model round tools messages
    match turn with
    | some turn => pure (turn, messages)
    | none => do
      let emptyTurns := A.config.maxEmptyTurnRetries - left
      A.record (.modelTurnEmpty round emptyTurns
        (if emptyTurns = 1 then "replay" else "replay_with_instruction"))
      takeTurn model round tools left
        (if 1 < emptyTurns then messages ++ [replayInstruction] else messages)

/-! ## Rounds -/

/-- The last round in which evidence may be gathered. -/
def researchLimit : ℕ := min A.config.maxResearchRounds A.config.maxModelRounds

def offeredTools (round : ℕ) : List ToolDefinition :=
  if A.researchLimit < round then
    A.tools.definitions.filter fun tool =>
      tool.handler = .runtime || tool.name = "run_financial_calculation"
  else A.tools.definitions

def startRound (model : String) (round : ℕ) : RunM A Unit := do
  A.ensureActive
  A.modifyRun fun r => { r with modelRound := round, phase := .reasoning }
  A.record (.modelStarted model round)

/-- Handle the tool calls of a turn: the outcome of the task, or the conversation
to go on with. -/
def toolRound (task : RuntimeTask) (round : ℕ) (messages : List Message) (text : String)
    (calls : List ModelToolCall) : RunM A (RunOutcome ⊕ List Message) := do
  A.modifyRun fun r => r.setPhase .awaitingTools
  A.observe (.turn text calls)
  let batch ← A.executeTools task calls
  match batch.published, batch.finalizationExhausted with
  | some outcome, _ => pure (.inl outcome)
  | none, some reason => throw (.verificationFailed reason)
  | none, none => pure (.inr (messages ++ [turnMessage text calls] ++ batch.messages ++
      if round = A.researchLimit then [budgetInstruction] else []))

/-- Answer a turn of prose. -/
def proseRound (messages : List Message) (text : String) : RunM A (RunOutcome ⊕ List Message) :=
  if !A.config.verifyReports then do
    let outcome ← A.completeRun text
    pure (.inl outcome)
  else do
    let verdict ← A.recordRejection ("free-form-turn:" ++ Text.takeChars 512 text)
    if verdict.isExhausted then
      throw (.verificationFailed
        "the report was never submitted through the structured contract")
    else do
      A.modifyRun fun r => r.setPhase .reviewing
      pure (.inr (messages ++ [.text .assistant text, proseInstruction]))

def modelRound (task : RuntimeTask) (model : String) (round : ℕ) (messages : List Message) :
    RunM A (RunOutcome ⊕ List Message) := do
  A.startRound model round
  let (turn, messages) ← A.takeTurn model round (A.offeredTools round)
    A.config.maxEmptyTurnRetries messages
  if turn.2.isEmpty then A.proseRound messages turn.1
  else A.toolRound task round messages turn.1 turn.2

/-- The rounds of a task; `left` is how many are left. -/
def rounds (task : RuntimeTask) (model : String) : ℕ → List Message → RunM A RunOutcome
  | 0, _ => throw (.modelRoundLimit A.config.maxModelRounds)
  | left + 1, messages => do
    let result ← A.modelRound task model (A.config.maxModelRounds - left) messages
    match result with
    | .inl outcome => pure outcome
    | .inr messages => rounds task model left messages

/-- The conversation a task starts with. -/
def openingMessages (task : RuntimeTask) : List Message :=
  [.text .system (A.systemPrompt task)] ++
    (task.historySummary.map fun summary => Message.text .system
      ("以下是较早会话的确定性压缩索引，仅用于理解用户上下文；它不是当前事实、不是新证据，也不得替代重新取数与证据引用：\n" ++ summary)).toList ++
    task.history ++ [.text .user (Text.trim task.objective)]

def startPlanning (task : RuntimeTask) : RunM A Unit := do
  let w ← get
  A.record (.sessionStarted w.run.taskId task.objective)
  A.record .userMessageAccepted
  A.modifyRun fun r => r.setPhase .planning
  A.record .planningStarted
  A.record (.planUpdated "根据问题动态选择行情、基本面、资讯、量化和证据核验工具")

def executeLoop (task : RuntimeTask) : RunM A RunOutcome := do
  A.startPlanning task
  let model ← A.selectModel
  A.rounds task model A.config.maxModelRounds (A.openingMessages task)

/-! ## The task -/

/-- The provider errors after which a task is suspended, not failed. -/
def suspends (error : ProviderError) : Bool :=
  error.retryable || error.kind = .quota || error.kind = .rateLimited

/-- The terminal event for an error; `none` is a panic. -/
def terminalEvent (error : RuntimeError) (now : Instant) : Option AgentEvent :=
  match error with
  | .cancelled => some .cancelled
  | .provider provider =>
    if suspends provider then
      let fault := ModelFault.classify provider
      (plan A.platform.lastInstant fault (.new 1) now).map fun action =>
        .suspended provider.message
          (match action with
            | .suspendUntil resumeAt _ => some (A.platform.rfc3339 resumeAt)
            | _ => none)
          (some fault.asStr)
    else some (.failed error.message)
  | _ => some (.failed error.message)

/-- Record how a task ended; a failure to do so is only logged. -/
def recordTerminal (error : RuntimeError) : RunM A Unit := do
  let t ← A.tick
  match A.terminalEvent error (A.env.now t) with
  | none => throw (.panic "DateTime + TimeDelta overflowed")
  | some event => do
    A.modifyRun fun r => r.setPhase (event.terminalPhase.getD r.phase)
    let _ ← attempt (A.record event)
    pure ()

/-- `create_task` of the gateway. -/
def createTask (taskId : String) (task : RuntimeTask) : RunM A Unit :=
  A.storeCall fun now => .createTask now {
    taskId
    reducerVersion := "rust-agent-runtime-v1"
    taskSpec := task.toJson
    phase := "preparing" }

/-- End a task with the result of its loop. -/
def finishTask (result : Except RuntimeError RunOutcome) : RunM A RunOutcome :=
  match result with
  | .ok outcome => pure outcome
  | .error error => do
    A.recordTerminal error
    throw error

def executeTask (taskId : String) (task : RuntimeTask) : RunM A RunOutcome := do
  match task.validate with
  | .error error => throw error
  | .ok () => do
    A.createTask taskId task
    let result ← attempt (A.executeLoop task)
    A.finishTask result

/-- The world in which a task with a new id starts. -/
def start (store : EngineStore) (taskId : String) : World A.reports.Catalog where
  run := .new taskId A.reports.emptyCatalog A.config.maxFinalizationAttempts
  store := store
  clock := 0
  trace := []

/-- A run of `execute_task`: how it ends, and the world then. Its caller draws the id
as a fresh v4 UUID. -/
def runTask (store : EngineStore) (taskId : String) (task : RuntimeTask) :
    Except RuntimeError RunOutcome × World A.reports.Catalog :=
  exec (A.executeTask taskId task) (A.start store taskId)

end AgentRuntime

end Astock
