import Astock.Lib.Json
import Astock.Lib.Time

/-!
# Phases, events and errors of an Agent task

`crates/agent-runtime/src/events.rs` and `error.rs`: what a task records about
itself, and how it can end. The variants of `AgentEvent` and `RuntimeError` that
a task never produces (plan revisions, clarifications, ..) are left out.
-/

namespace Astock

inductive AgentPhase where
  | preparing
  | planning
  | reasoning
  | awaitingTools
  | reviewing
  | verifying
  | suspended
  | completed
  | cancelled
  | failed
  deriving DecidableEq

def AgentPhase.asStr : AgentPhase → String
  | .preparing => "preparing"
  | .planning => "planning"
  | .reasoning => "reasoning"
  | .awaitingTools => "awaiting_tools"
  | .reviewing => "reviewing"
  | .verifying => "verifying"
  | .suspended => "suspended"
  | .completed => "completed"
  | .cancelled => "cancelled"
  | .failed => "failed"

structure VerificationFinding where
  code : String
  message : String
  blocking : Bool
  deriving DecidableEq

/-- What a task appends to its durable log and sends to its consumer. -/
inductive AgentEvent where
  | sessionStarted (taskId objective : String)
  | userMessageAccepted
  | planningStarted
  | planUpdated (summary : String)
  | modelStarted (model : String) (round : ℕ)
  | modelTurnEmpty (round attempt : ℕ) (action : String)
  | textDelta (text : String)
  | toolScheduled (callId tool : String)
  | toolStarted (callId tool : String)
  | toolCompleted (callId tool : String) (evidenceIds : List String)
  | toolFailed (callId tool message : String) (retryable : Bool)
  | evidenceAdded (callId : String) (evidenceIds : List String)
  | verificationStarted
  | verificationFinding (finding : VerificationFinding)
  | suspended (reason : String) (resumeAt fault : Option String)
  | cancelled
  | completed (report : String) (evidenceIds : List String)
  | failed (message : String)
  deriving DecidableEq

namespace AgentEvent

def kind : AgentEvent → String
  | .sessionStarted _ _ => "session_started"
  | .userMessageAccepted => "user_message_accepted"
  | .planningStarted => "planning_started"
  | .planUpdated _ => "plan_updated"
  | .modelStarted _ _ => "model_started"
  | .modelTurnEmpty _ _ _ => "model_turn_empty"
  | .textDelta _ => "text_delta"
  | .toolScheduled _ _ => "tool_scheduled"
  | .toolStarted _ _ => "tool_started"
  | .toolCompleted _ _ _ => "tool_completed"
  | .toolFailed _ _ _ _ => "tool_failed"
  | .evidenceAdded _ _ => "evidence_added"
  | .verificationStarted => "verification_started"
  | .verificationFinding _ => "verification_finding"
  | .suspended _ _ _ => "suspended"
  | .cancelled => "cancelled"
  | .completed _ _ => "completed"
  | .failed _ => "failed"

/-- An array of strings as JSON. -/
def strings (items : List String) : Json := .arr (items.map .str)

/-- The fields of an event, besides its tag. -/
def fields : AgentEvent → List (String × Json)
  | .sessionStarted taskId objective => [("task_id", .str taskId), ("objective", .str objective)]
  | .userMessageAccepted => []
  | .planningStarted => []
  | .planUpdated summary => [("summary", .str summary)]
  | .modelStarted model round => [("model", .str model), ("round", .ofNat round)]
  | .modelTurnEmpty round attempt action =>
    [("round", .ofNat round), ("attempt", .ofNat attempt), ("action", .str action)]
  | .textDelta text => [("text", .str text)]
  | .toolScheduled callId tool => [("call_id", .str callId), ("tool", .str tool)]
  | .toolStarted callId tool => [("call_id", .str callId), ("tool", .str tool)]
  | .toolCompleted callId tool evidenceIds =>
    [("call_id", .str callId), ("tool", .str tool), ("evidence_ids", strings evidenceIds)]
  | .toolFailed callId tool message retryable =>
    [("call_id", .str callId), ("tool", .str tool), ("message", .str message),
      ("retryable", .bool retryable)]
  | .evidenceAdded callId evidenceIds =>
    [("call_id", .str callId), ("evidence_ids", strings evidenceIds)]
  | .verificationStarted => []
  | .verificationFinding finding =>
    [("finding", .ofFields [("code", .str finding.code), ("message", .str finding.message),
      ("blocking", .bool finding.blocking)])]
  | .suspended reason resumeAt fault =>
    [("reason", .str reason)] ++ (resumeAt.map fun s => ("resume_at", .str s)).toList ++
      (fault.map fun s => ("fault", .str s)).toList
  | .cancelled => []
  | .completed report evidenceIds => [("report", .str report), ("evidence_ids", strings evidenceIds)]
  | .failed message => [("message", .str message)]

/-- The event as serde writes it: the kind under `type`, next to the fields. -/
def toJson (event : AgentEvent) : Json := .ofFields (("type", .str event.kind) :: event.fields)

/-- The phase an event puts the task in for good, if it does. -/
def terminalPhase : AgentEvent → Option AgentPhase
  | .suspended _ _ _ => some .suspended
  | .cancelled => some .cancelled
  | .completed _ _ => some .completed
  | .failed _ => some .failed
  | _ => none

end AgentEvent

/-! ## Errors -/

inductive ProviderErrorKind where
  | authentication
  | rateLimited
  | quota
  | network
  | malformedResponse
  | unavailable
  deriving DecidableEq

structure ProviderError where
  kind : ProviderErrorKind
  message : String
  retryable : Bool
  retryAfter : Option Duration := none
  deriving DecidableEq

/-- How a task ends without a report; `panic` is an unwinding panic. -/
inductive RuntimeError where
  | configuration (message : String)
  | provider (error : ProviderError)
  | unknownTool (name : String)
  | toolResultTooLarge (tool : String) (actual maximum : ℕ)
  | store (message : String)
  | cancelled
  | modelRoundLimit (limit : ℕ)
  | emptyModelTurn
  | verificationFailed (reason : String)
  | panic (text : String)
  deriving DecidableEq

/-- The `Display` text of an error. -/
def RuntimeError.message : RuntimeError → String
  | .configuration message => s!"invalid configuration: {message}"
  | .provider error => s!"provider error: {error.message}"
  | .unknownTool name => s!"unknown tool `{name}`; the request was rejected"
  | .toolResultTooLarge tool actual maximum =>
    s!"tool `{tool}` returned {actual} bytes, above the {maximum}-byte limit"
  | .store message => s!"durable Agent store error: {message}"
  | .cancelled => "Agent task was cancelled"
  | .modelRoundLimit limit => s!"model round limit ({limit}) was reached"
  | .emptyModelTurn => "model returned neither visible text nor a tool call"
  | .verificationFailed reason => s!"report publication blocked by verification: {reason}"
  | .panic text => text

end Astock

/-!
## Provider faults and their recovery

`crates/agent-runtime/src/fault.rs`: a provider error is classified once, and
`plan` decides what to do about it within an attempt budget. Adding a delay to
the current time panics beyond the last instant that `chrono` can hold.
-/

namespace Astock

/-- `MAX_FOREGROUND_WAIT`. -/
def maxForegroundWait : Duration := .fromSecs 45

inductive ModelFault where
  | rateLimited (retryAfter : Option Duration)
  | quotaExhausted (resetAfter : Option Duration)
  | network
  | emptyTurn
  | protocolCorruption
  | truncatedOutput
  | contextLimit
  | modelUnavailable
  | authentication
  | invalidRequest
  deriving DecidableEq

namespace ModelFault

def classify (error : ProviderError) : ModelFault :=
  match error.kind with
  | .rateLimited => .rateLimited error.retryAfter
  | .quota => .quotaExhausted error.retryAfter
  | .network => .network
  | .malformedResponse => .protocolCorruption
  | .unavailable => .modelUnavailable
  | .authentication => .authentication

def isTransient : ModelFault → Bool
  | .rateLimited _ | .quotaExhausted _ | .network | .emptyTurn | .protocolCorruption
  | .modelUnavailable => true
  | .truncatedOutput | .contextLimit | .authentication | .invalidRequest => false

def asStr : ModelFault → String
  | .rateLimited _ => "rate_limited"
  | .quotaExhausted _ => "quota_exhausted"
  | .network => "network"
  | .emptyTurn => "empty_turn"
  | .protocolCorruption => "protocol_corruption"
  | .truncatedOutput => "truncated_output"
  | .contextLimit => "context_limit"
  | .modelUnavailable => "model_unavailable"
  | .authentication => "authentication"
  | .invalidRequest => "invalid_request"

end ModelFault

inductive RecoveryAction where
  | retryNow
  | retryAfter (delay : Duration)
  | suspendUntil (resumeAt : Instant) (reason : String)
  | suspendIndefinitely (reason : String)
  | compactAndRetry
  | requireUserAction (reason : String)
  | failClosed (reason : String)
  deriving DecidableEq

namespace RecoveryAction

def isTerminal : RecoveryAction → Bool
  | .failClosed _ | .requireUserAction _ => true
  | _ => false

def suspends : RecoveryAction → Bool
  | .suspendUntil _ _ | .suspendIndefinitely _ => true
  | _ => false

end RecoveryAction

structure AttemptBudget where
  maxAttempts : ℕ
  attempts : ℕ

namespace AttemptBudget

def new (maxAttempts : ℕ) : AttemptBudget := ⟨max maxAttempts 1, 0⟩

def remaining (b : AttemptBudget) : ℕ := b.maxAttempts - b.attempts

/-- Record one provider attempt; `false` once the budget is spent. -/
def consume (b : AttemptBudget) : AttemptBudget × Bool :=
  (⟨b.maxAttempts, b.attempts + 1⟩, b.attempts + 1 ≤ b.maxAttempts)

end AttemptBudget

/-- Exponential backoff, bounded by the foreground wait ceiling. -/
def backoff (attempts : ℕ) : Duration :=
  ⟨min (Duration.fromSecs (2 ^ min attempts 5)).nanos maxForegroundWait.nanos⟩

/-- `chrono::Duration::from_std(delay).unwrap_or_default()`: a delay of more
milliseconds than an `i64` holds becomes zero. -/
def chronoDelay (delay : Duration) : ℤ :=
  if delay.nanos ≤ 9223372036854775807 * 1000000 then delay.nanos else 0

/-- `now + delay`, where `last` is the last instant there is; `none` is a panic. -/
def resumeTime (last now : Instant) (delay : Duration) : Option Instant :=
  if now + chronoDelay delay ≤ last then some (now + chronoDelay delay) else none

/-- What to do about a fault; `none` is a panic. -/
def plan (last : Instant) (fault : ModelFault) (budget : AttemptBudget) (now : Instant) :
    Option RecoveryAction :=
  if budget.remaining = 0 ∧ fault.isTransient then
    some (.failClosed
      s!"provider attempt budget of {budget.maxAttempts} exhausted while recovering from {fault.asStr}")
  else
    match fault with
    | .rateLimited (some delay) =>
      if delay.nanos ≤ maxForegroundWait.nanos then some (.retryAfter delay)
      else (resumeTime last now delay).map fun resumeAt =>
        .suspendUntil resumeAt s!"provider rate limit; retry after {delay.asSecs}s"
    | .rateLimited none => some (.retryAfter (.fromSecs 5))
    | .quotaExhausted (some delay) => (resumeTime last now delay).map fun resumeAt =>
        .suspendUntil resumeAt s!"provider quota exhausted; resets in {delay.asSecs}s"
    | .quotaExhausted none =>
      some (.suspendIndefinitely "provider quota exhausted; reset time not reported")
    | .network | .modelUnavailable => some (.retryAfter (backoff budget.attempts))
    | .emptyTurn | .protocolCorruption => some .retryNow
    | .contextLimit | .truncatedOutput => some .compactAndRetry
    | .authentication =>
      some (.requireUserAction "provider rejected the credential; install a valid one")
    | .invalidRequest => some (.failClosed "provider rejected the request as invalid")

end Astock
