import Astock.Spec.Model

/-!
# Tasks, tools and configuration

`RuntimeTask` and `RuntimeConfig` of `runtime.rs`, and the tool registry of
`tools.rs`. Of a tool only what the runtime reads is kept; its description and
its schema go to the provider unread.
-/

namespace Astock

/-- A finite `f64` by the text that denotes it, with whether it is above zero, or
one that is not finite. -/
inductive F64 where
  | finite (text : String) (positive : Bool)
  | notFinite
  deriving DecidableEq

/-- serde writes a float that is not finite as `null`. -/
def F64.toJson : F64 → Json
  | .finite text _ => .num (.float text)
  | .notFinite => .null

/-! ## Tasks -/

structure RuntimeTask where
  objective : String
  symbol : Option String := none
  depth : String := "balanced"
  toolPolicy : String := "full"
  language : String := "zh-CN"
  capital : Option F64 := none
  history : List Message := []
  historySummary : Option String := none

def maxObjectiveChars : ℕ := 120000

def maxModelHistoryMessages : ℕ := 40

def maxModelHistoryChars : ℕ := 120000

def maxSessionSummaryChars : ℕ := 30000

/-- A message that may stand in the history of a task. -/
def Message.isHistory (m : Message) : Bool :=
  (m.role = .user || m.role = .assistant) && Text.trim m.content ≠ "" && m.toolCalls.isEmpty &&
    m.toolCallId.isNone

namespace RuntimeTask

/-- A six-digit symbol. -/
def isSymbol (symbol : String) : Bool :=
  symbol.utf8ByteSize = 6 && symbol.toList.all fun c => '0' ≤ c && c ≤ '9'

def isPositive : F64 → Bool
  | .finite _ positive => positive
  | .notFinite => false

/-- The first complaint about a task. -/
def complaint (task : RuntimeTask) : Option String :=
  let symbol := task.symbol.getD ""
  if Text.trim task.objective = "" then some "research objective must not be empty"
  else if maxObjectiveChars < task.objective.length then
    some s!"research objective exceeds {maxObjectiveChars} characters"
  else if task.depth ∉ ["fast", "balanced", "deep", "exhaustive"] then
    some s!"unknown research depth `{task.depth}`"
  else if task.toolPolicy ∉ ["auto", "market", "evidence", "full"] then
    some s!"unknown tool policy `{task.toolPolicy}`"
  else if task.symbol.any fun s => !isSymbol s then
    some s!"symbol `{symbol}` must contain exactly six digits"
  else if task.capital.any fun c => !isPositive c then
    some "capital must be a finite positive number"
  else if maxModelHistoryMessages < task.history.length then
    some s!"model history exceeds {maxModelHistoryMessages} messages"
  else if !task.history.all (·.isHistory) then
    some "model history accepts only non-empty user/assistant text messages"
  else if maxModelHistoryChars < (task.history.map (·.content.length)).sum then
    some s!"model history exceeds {maxModelHistoryChars} characters"
  else if task.historySummary.any fun s => Text.trim s = "" || maxSessionSummaryChars < s.length then
    some s!"history summary must contain 1..{maxSessionSummaryChars} characters"
  else none

def validate (task : RuntimeTask) : Except RuntimeError Unit :=
  match task.complaint with
  | some message => .error (.configuration message)
  | none => .ok ()

def toJson (task : RuntimeTask) : Json := .ofFields (
  [("objective", .str task.objective)] ++
    (task.symbol.map fun s => ("symbol", Json.str s)).toList ++
    [("depth", .str task.depth), ("tool_policy", .str task.toolPolicy),
      ("language", .str task.language)] ++
    (task.capital.map fun c => ("capital", c.toJson)).toList ++
    (if task.history = [] then [] else [("history", .arr (task.history.map (·.toJson)))]) ++
    (task.historySummary.map fun s => ("history_summary", Json.str s)).toList)

end RuntimeTask

/-! ## Tools -/

inductive ToolHandler where
  | engine
  | runtime
  deriving DecidableEq

structure ToolDefinition where
  name : String
  engineKind : String
  timeout : Duration
  handler : ToolHandler
  deriving DecidableEq

/-- The registered tools, in order of their names, each name once. -/
structure ToolRegistry where
  definitions : List ToolDefinition
  sorted : definitions.Pairwise fun a b => a.name < b.name

namespace ToolRegistry

def get (registry : ToolRegistry) (name : String) : Option ToolDefinition :=
  registry.definitions.find? (·.name = name)

def names (registry : ToolRegistry) : List String := registry.definitions.map (·.name)

end ToolRegistry

def readTool (name engineKind : String) (timeoutSecs : ℕ) : ToolDefinition where
  name := name
  engineKind := engineKind
  timeout := .fromSecs timeoutSecs
  handler := .engine

def runtimeTool (name : String) : ToolDefinition where
  name := name
  engineKind := ""
  timeout := .fromSecs 15
  handler := .runtime

/-- `default_registry`. -/
def defaultRegistry : ToolRegistry where
  definitions := [
    readTool "get_fundamentals" "research.fundamentals" 45,
    readTool "get_joinquant_context" "research.joinquant_context" 240,
    readTool "get_kline" "market.kline" 30,
    readTool "get_market_regime" "research.market.regime" 30,
    readTool "get_quote" "market.quote" 20,
    readTool "prepare_market_research" "research.agent_prepare_context" 90,
    readTool "research_news" "research.news" 45,
    readTool "research_securities" "research.agent_security_context" 120,
    readTool "run_financial_calculation" "research.compute" 20,
    readTool "run_joinquant_calculation" "research.joinquant_compute" 180,
    runtimeTool "search_evidence",
    runtimeTool "submit_report"]
  sorted := by decide

/-! ## Configuration -/

structure RuntimeConfig where
  maxModelRounds : ℕ := 32
  maxResearchRounds : ℕ := 20
  maxFinalizationAttempts : ℕ := 8
  maxModelChunksPerRound : ℕ := 10000
  maxUnknownToolRejections : ℕ := 3
  maxEmptyTurnRetries : ℕ := 2
  maxVisibleCharsPerRound : ℕ := 120000
  maxToolCallsPerRound : ℕ := 32
  maxToolArgumentChars : ℕ := 256000
  maxParallelTools : ℕ := 4
  maxToolResultBytes : ℕ := 2 * 1024 * 1024
  maxTokens : ℕ := 8192
  temperature : F64 := .finite "0.2" true
  verifyReports : Bool := true

structure ModelRequest where
  model : String
  messages : List Message
  tools : List ToolDefinition
  maxTokens : ℕ
  temperature : F64

end Astock
