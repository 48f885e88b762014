import Astock.Spec.Task

/-!
# Sessions

`crates/agent-runtime/src/session.rs`: a session is the conversation of several turns. It is
stored as JSON and read back (`toJson`, `ofJson`); what the model sees of it is its most recent
messages and a summary of those before them. Plans never reach a session in a run and are left
out.
-/

namespace Astock

def sessionVersion : String := "rust-agent-session-v1"

def maxSessionMessages : ℕ := 1000

def maxSessionTextChars : ℕ := 2000000

def maxSummaryMessageChars : ℕ := 480

inductive SessionMessageRole where
  | user
  | agent
  | system
  | tool
  deriving DecidableEq

def SessionMessageRole.asStr : SessionMessageRole → String
  | .user => "user"
  | .agent => "agent"
  | .system => "system"
  | .tool => "tool"

structure SessionMessage where
  id : String
  role : SessionMessageRole
  text : String
  timestamp : String
  deriving DecidableEq

structure SessionTaskState where
  taskId : String
  phase : AgentPhase
  acceptedSeq : ℕ
  modelRound : ℕ
  completedToolIds : List String
  evidenceIds : List String
  resumeAt : Option String
  suspendedBy : Option String
  deriving DecidableEq

structure RuntimeSession where
  version : String
  sessionId : String
  title : String
  createdAt : Int64
  updatedAt : Int64
  input : String
  depth : String
  toolPolicy : String
  messages : List SessionMessage
  task : Option SessionTaskState
  summary : Option String
  deriving DecidableEq

/-- `Uuid::new_v4().to_string()`. -/
structure Uuid where
  text : String
  wf : text.utf8ByteSize = 36 ∧ ∀ c ∈ text.toList, c.isAlphanum ∨ c = '-'

/-- What the clock and the generator of ids give when a message is pushed. -/
structure Stamp where
  id : Uuid
  timestamp : String
  now : Int64

/-! ## Validation -/

/-- The complaint about an id. -/
def idComplaint (value name : String) : Option String :=
  if value = "" ∨ 128 < value.utf8ByteSize ∨ value.toList.any Text.isControl then
    some s!"{name} must contain 1..128 visible bytes"
  else none

def SessionMessage.complaint (message : SessionMessage) : Option String :=
  (idComplaint message.id "message_id").or
    (if Text.trim message.text = "" then some "session messages must not be empty" else none)

namespace RuntimeSession

/-- The characters of all messages. -/
def textChars (session : RuntimeSession) : ℕ := (session.messages.map (·.text.length)).sum

/-- The first complaint about a session. -/
def complaint (session : RuntimeSession) : Option String :=
  (idComplaint session.sessionId "session_id").or <|
  if session.version ≠ sessionVersion then
    some s!"unsupported session version `{session.version}`"
  else if Text.trim session.title = "" ∨ 240 < session.title.utf8ByteSize then
    some "session title must contain 1..240 bytes"
  else if maxSessionMessages < session.messages.length then
    some s!"session contains more than {maxSessionMessages} messages"
  else (session.messages.findSome? SessionMessage.complaint).or <|
  if maxSessionTextChars < session.textChars then
    some s!"session text exceeds {maxSessionTextChars} characters"
  else if session.summary.any fun s => Text.trim s = "" || maxSessionSummaryChars < s.length then
    some s!"session summary must contain 1..{maxSessionSummaryChars} characters"
  else none

def validate (session : RuntimeSession) : Except RuntimeError Unit :=
  match session.complaint with
  | some message => .error (.configuration message)
  | none => .ok ()

/-- The title of a session that has none yet. -/
def untitled : String := "新研究"

def new (id : Uuid) (now : Int64) (depth toolPolicy : String) : RuntimeSession where
  version := sessionVersion
  sessionId := id.text
  title := untitled
  createdAt := now
  updatedAt := now
  input := ""
  depth := depth
  toolPolicy := toolPolicy
  messages := []
  task := none
  summary := none

def pushMessage (stamp : Stamp) (role : SessionMessageRole) (text : String)
    (session : RuntimeSession) : RuntimeSession :=
  { session with
    messages := session.messages ++ [{ id := stamp.id.text, role, text, timestamp := stamp.timestamp }]
    updatedAt := stamp.now }

def ensureTitle (objective : String) (session : RuntimeSession) : RuntimeSession :=
  let title := Text.takeChars 60 (Text.trim objective)
  if session.messages.isEmpty && session.title = untitled && title ≠ "" then { session with title }
  else session

/-! ## What the model sees -/

/-- The messages of the user and of the Agent. -/
def relevantMessages (session : RuntimeSession) : List SessionMessage :=
  session.messages.filter fun message => message.role = .user ∨ message.role = .agent

end RuntimeSession

/-- The loop of `retained_history_count`, over the messages from the newest on. -/
def retain (retained chars : ℕ) : List SessionMessage → ℕ
  | [] => retained
  | message :: rest =>
    if maxModelHistoryMessages ≤ retained ∨ maxModelHistoryChars < chars + message.text.length then
      retained
    else retain (retained + 1) (chars + message.text.length) rest

def retainedHistoryCount (messages : List SessionMessage) : ℕ := retain 0 0 messages.reverse

/-- A message as the model reads it. -/
def SessionMessage.forModel (message : SessionMessage) : Message :=
  .text (if message.role = .user then .user else .assistant) message.text

def truncateChars (text : String) (maximum : ℕ) : String :=
  if maximum < text.length then Text.takeChars maximum text ++ "…" else text

/-- The line of a message in a summary. -/
def SessionMessage.excerpt (message : SessionMessage) : String :=
  let role := if message.role = .user then "用户" else "Agent"
  let normalized := " ".intercalate (Text.splitWhitespace message.text)
  s!"- {role}: {truncateChars normalized maxSummaryMessageChars}"

/-- The messages that a summary has room for, from the newest omitted one on. -/
def summarized (used : ℕ) : List SessionMessage → List SessionMessage
  | [] => []
  | message :: rest =>
    let lineChars := message.excerpt.length + 1
    if maxSessionSummaryChars - 160 < used + lineChars then []
    else message :: summarized (used + lineChars) rest

/-- A summary that shows some of the omitted messages. -/
def summaryText (omittedCount : ℕ) (shown : List SessionMessage) : String :=
  let included := shown.length
  let head := s!"较早消息压缩索引：共省略 {omittedCount} 条，保留其中最近 {included} 条摘录。原文仍在持久会话中；涉及当前价格、日期、额度或结论时必须重新取证。"
  if shown.isEmpty then head else head ++ "\n" ++ "\n".intercalate (shown.map (·.excerpt))

namespace RuntimeSession

/-- The messages that are left out of the history. -/
def omittedMessages (session : RuntimeSession) : List SessionMessage :=
  let relevant := session.relevantMessages
  relevant.take (relevant.length - retainedHistoryCount relevant)

def modelHistory (session : RuntimeSession) : List Message :=
  let relevant := session.relevantMessages
  (relevant.drop (relevant.length - retainedHistoryCount relevant)).map (·.forModel)

def refreshCompactedSummary (now : Int64) (session : RuntimeSession) : RuntimeSession :=
  let omitted := session.omittedMessages
  if omitted.isEmpty then session
  else { session with
    summary := some (summaryText omitted.length (summarized 0 omitted.reverse).reverse)
    updatedAt := now }

end RuntimeSession

end Astock
