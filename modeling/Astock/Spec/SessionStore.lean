import Astock.Spec.Conversations
import Astock.Spec.Session
import Astock.Spec.Events

/-!
# Stored sessions

`SessionManager` of `crates/agent-runtime/src/session.rs` and the session calls of
`engine.rs`: a session is handed to the Engine as JSON, and what the Engine hands back is decoded
and validated again.
-/

namespace Astock

open Prog

/-! ## JSON -/

def SessionMessage.toJson (message : SessionMessage) : Json := .ofFields [
  ("id", .str message.id), ("role", .str message.role.asStr), ("text", .str message.text),
  ("timestamp", .str message.timestamp)]

def SessionTaskState.toJson (task : SessionTaskState) : Json := .ofFields (
  [("task_id", .str task.taskId), ("phase", .str task.phase.asStr),
    ("accepted_seq", .ofNat task.acceptedSeq), ("model_round", .ofNat task.modelRound),
    ("completed_tool_ids", AgentEvent.strings task.completedToolIds),
    ("evidence_ids", AgentEvent.strings task.evidenceIds)] ++
  (task.resumeAt.map fun s => ("resume_at", Json.str s)).toList ++
  (task.suspendedBy.map fun s => ("suspended_by", Json.str s)).toList)

def RuntimeSession.toJson (session : RuntimeSession) : Json := .ofFields (
  [("version", .str session.version), ("sessionId", .str session.sessionId),
    ("title", .str session.title), ("createdAt", .ofInt session.createdAt.toInt),
    ("updatedAt", .ofInt session.updatedAt.toInt), ("input", .str session.input),
    ("depth", .str session.depth), ("toolPolicy", .str session.toolPolicy),
    ("messages", .arr (session.messages.map (·.toJson))),
    ("task", .ofOption SessionTaskState.toJson session.task)] ++
  (session.summary.map fun s => ("summary", Json.str s)).toList)

def SessionMessageRole.ofJson : Json → Option SessionMessageRole
  | .str "user" => some .user
  | .str "agent" => some .agent
  | .str "system" => some .system
  | .str "tool" => some .tool
  | _ => none

def AgentPhase.ofJson : Json → Option AgentPhase
  | .str "preparing" => some .preparing
  | .str "planning" => some .planning
  | .str "reasoning" => some .reasoning
  | .str "awaiting_tools" => some .awaitingTools
  | .str "reviewing" => some .reviewing
  | .str "verifying" => some .verifying
  | .str "suspended" => some .suspended
  | .str "completed" => some .completed
  | .str "cancelled" => some .cancelled
  | .str "failed" => some .failed
  | _ => none

/-- An `i64`. -/
def asInt64 (j : Json) : Option Int64 := j.asI64.map Int64.ofInt

def SessionMessage.ofJson (j : Json) : Option SessionMessage :=
  if !j.knows ["id", "role", "text", "timestamp"] then none
  else do
    let id ← j.field "id" Json.asStr
    let role ← j.field "role" SessionMessageRole.ofJson
    let text ← j.field "text" Json.asStr
    let timestamp ← j.field "timestamp" Json.asStr
    pure { id := id, role, text, timestamp }

def SessionTaskState.ofJson (j : Json) : Option SessionTaskState := do
  let taskId ← j.field "task_id" Json.asStr
  let phase ← j.field "phase" AgentPhase.ofJson
  let acceptedSeq ← j.field "accepted_seq" Json.asU64
  let modelRound ← j.fieldOr "model_round" 0 Json.asU64
  let completedToolIds ← j.fieldOr "completed_tool_ids" [] (Json.listOf Json.asStr)
  let evidenceIds ← j.fieldOr "evidence_ids" [] (Json.listOf Json.asStr)
  let resumeAt ← j.fieldOr "resume_at" none (Json.nullable Json.asStr)
  let suspendedBy ← j.fieldOr "suspended_by" none (Json.nullable Json.asStr)
  pure {
    taskId
    phase
    acceptedSeq
    modelRound
    completedToolIds
    evidenceIds
    resumeAt
    suspendedBy }

def RuntimeSession.ofJson (j : Json) : Option RuntimeSession := do
  let version ← j.fieldOr "version" sessionVersion Json.asStr
  let sessionId ← j.field "sessionId" Json.asStr
  let title ← j.field "title" Json.asStr
  let createdAt ← j.field "createdAt" asInt64
  let updatedAt ← j.field "updatedAt" asInt64
  let input ← j.fieldOr "input" "" Json.asStr
  let depth ← j.field "depth" Json.asStr
  let toolPolicy ← j.field "toolPolicy" Json.asStr
  let messages ← j.fieldOr "messages" [] (Json.listOf SessionMessage.ofJson)
  let task ← j.fieldOr "task" none (Json.nullable SessionTaskState.ofJson)
  let summary ← j.fieldOr "summary" none (Json.nullable Json.asStr)
  pure {
    version
    sessionId
    title
    createdAt
    updatedAt
    input
    depth
    toolPolicy
    messages
    task
    summary }

/-! ## The manager -/

structure StoredSession where
  conversationId : String
  title : String
  session : RuntimeSession
  parentConversationId : Option String
  branchFromMessageId : Option String

/-- An answer of the Engine, with its session decoded. -/
def decodeStored (name : String) (answer : Except StoreError StoredConversation) :
    Except RuntimeError StoredSession :=
  match answer with
  | .error error => .error (.store ("agent_event_store: " ++ error.message))
  | .ok stored =>
    match RuntimeSession.ofJson stored.session with
    | none => .error (.store s!"decode {name} session")
    | some session => .ok {
        conversationId := stored.conversationId
        title := stored.title
        session
        parentConversationId := stored.parentConversationId
        branchFromMessageId := stored.branchFromMessageId }

/-- The payload of `agent.conversation.save`. -/
def RuntimeSession.saveInput (session : RuntimeSession) : SaveConversation where
  conversationId := session.sessionId
  title := session.title
  session := session.toJson

/-- `load_conversation`. -/
def loadConversation (conversationId : String) : Sql StoredConversation := do
  validateIdentity conversationId "conversation_id"
  readConversation conversationId

namespace SessionManager

def validateId (value name : String) : Except RuntimeError Unit :=
  match idComplaint value name with
  | some message => .error (.configuration message)
  | none => .ok ()

def load (s : EngineStore) (sessionId : String) : Except RuntimeError StoredSession := do
  validateId sessionId "session_id"
  let stored ← decodeStored "stored" (exec (loadConversation sessionId) s).1
  stored.session.validate
  pure stored

/-- The message to branch at. -/
def selectMessage (source : StoredSession) (messageId : Option String) :
    Except RuntimeError SessionMessage :=
  match messageId with
  | some messageId =>
    match source.session.messages.find? (·.id = messageId) with
    | some message => .ok message
    | none => .error (.configuration
        s!"message `{messageId}` does not belong to session `{source.conversationId}`")
  | none =>
    match source.session.messages.getLast? with
    | some message => .ok message
    | none => .error (.configuration "cannot branch a session without messages")

/-- The checkpoint that goes with a branch at the latest message. -/
def branchCheckpoint (source : RuntimeSession) (selected : SessionMessage) :
    Option SessionTaskState :=
  if source.messages.getLast?.any (·.id = selected.id) then
    source.task.filter (0 < ·.acceptedSeq)
  else none

def branchTitle (source : StoredSession) (title : Option String) : String :=
  ((title.map Text.trim).filter (· ≠ "")).getD (source.title ++ " · 分支")

/-- The request to branch a loaded session. -/
def branchRequest (source : StoredSession) (newSessionId : Uuid) (messageId title : Option String) :
    Except RuntimeError BranchConversation := do
  let selected ← selectMessage source messageId
  let checkpoint := branchCheckpoint source.session selected
  let title := branchTitle source title
  if 240 < title.utf8ByteSize then
    throw (.configuration "branch title must contain at most 240 bytes")
  if checkpoint.any fun task => 2 ^ 63 ≤ task.acceptedSeq then
    throw (.configuration "session checkpoint sequence exceeds Engine range")
  pure {
    sourceConversationId := source.conversationId
    newConversationId := newSessionId.text
    messageId := selected.id
    title
    checkpointTaskId := checkpoint.map (·.taskId)
    checkpointAcceptedSeq := checkpoint.map fun task => (task.acceptedSeq : ℤ) }

/-- `SessionManager::branch`, and the rows after it. -/
def branch (s : EngineStore) (now : ℤ) (newSessionId : Uuid) (sourceSessionId : String)
    (messageId title : Option String) : Except RuntimeError StoredSession × EngineStore :=
  match load s sourceSessionId >>= fun source => branchRequest source newSessionId messageId title with
  | .error error => (.error error, s)
  | .ok request =>
    let answer := exec (branchConversation now request) s
    (do
      let branched ← decodeStored "branched" answer.1
      branched.session.validate
      if branched.session.task.isSome then
        throw (.store "Engine returned a branch with executable task state")
      pure branched, answer.2)

end SessionManager

end Astock
