import Astock.Spec.EventStore

/-!
# Stored conversations and their branches

The conversation half of `crates/engine/src/event_store.rs`: sessions are saved
as JSON documents the store does not interpret, and a branch copies a prefix of
one into a new conversation.
-/

namespace Astock

open Prog

structure SaveConversation where
  conversationId : String
  title : String
  session : Json
  deriving DecidableEq

structure RenameConversation where
  conversationId : String
  title : String
  deriving DecidableEq

structure BranchConversation where
  sourceConversationId : String
  newConversationId : String
  messageId : String
  title : String
  checkpointTaskId : Option String
  checkpointAcceptedSeq : Option ℤ
  deriving DecidableEq

structure StoredConversation where
  conversationId : String
  title : String
  session : Json
  parentConversationId : Option String
  branchFromMessageId : Option String
  createdAt : ℤ
  updatedAt : ℤ

structure ConversationSummary where
  conversationId : String
  title : String
  phase : String
  messageCount : ℕ
  evidenceCount : ℕ
  parentConversationId : Option String
  branchFromMessageId : Option String
  branchFromCheckpointTaskId : Option String
  branchFromCheckpointSeq : Option ℤ
  createdAt : ℤ
  updatedAt : ℤ

namespace EngineStore

def addConversation (s : EngineStore) (row : ConversationRow) : EngineStore :=
  { s with conversations := s.conversations ++ [row] }

def updateConversation (s : EngineStore) (conversationId : String)
    (f : ConversationRow → ConversationRow) : EngineStore :=
  { s with
    conversations := s.conversations.map fun r => if r.conversationId = conversationId then f r else r }

def hasConversation (s : EngineStore) (conversationId : String) : Bool :=
  s.conversations.any (·.conversationId = conversationId)

end EngineStore

def validateTitle (title : String) : Sql String := do
  let title := Text.trim title
  guardOr (title ≠ "" && title.utf8ByteSize ≤ 240) .title
  pure title

/-- The size check of `encode_session`. -/
def encodeSession (session : Json) (tooLarge : StoreError) : Sql Json := do
  guardOr (session.textLen ≤ maxConversationBytes) tooLarge
  pure session

def ConversationRow.stored (row : ConversationRow) : StoredConversation where
  conversationId := row.conversationId
  title := row.title
  session := row.sessionJson
  parentConversationId := row.parentConversationId
  branchFromMessageId := row.branchFromMessageId
  createdAt := row.createdAt
  updatedAt := row.updatedAt

def readConversation (conversationId : String) : Sql StoredConversation := do
  let s ← get
  match s.conversationOf conversationId with
  | some row => pure row.stored
  | none => throw .conversationNotFound

/-- `INSERT .. ON CONFLICT(conversation_id) DO UPDATE`. -/
def saveConversation (now : ℤ) (input : SaveConversation) : Sql StoredConversation := do
  validateIdentity input.conversationId "conversation_id"
  let title ← validateTitle input.title
  let session ← encodeSession input.session .conversationTooLarge
  let s ← get
  if s.hasConversation input.conversationId then
    set (s.updateConversation input.conversationId fun r =>
      { r with title := title, sessionJson := session, deletedAt := none, updatedAt := now })
  else
    set (s.addConversation {
      conversationId := input.conversationId
      title := title
      sessionJson := session
      parentConversationId := none
      branchFromMessageId := none
      deletedAt := none
      createdAt := now
      updatedAt := now })
  readConversation input.conversationId

def renameConversation (now : ℤ) (input : RenameConversation) : Sql StoredConversation := do
  validateIdentity input.conversationId "conversation_id"
  let title ← validateTitle input.title
  let s ← get
  if (s.conversationOf input.conversationId).isSome then do
    set (s.updateConversation input.conversationId fun r =>
      if r.deletedAt = none then { r with title := title, updatedAt := now } else r)
    readConversation input.conversationId
  else
    throw .conversationNotFound

def deleteConversation (now : ℤ) (conversationId : String) : Sql Bool := do
  validateIdentity conversationId "conversation_id"
  let s ← get
  set (s.updateConversation conversationId fun r =>
    if r.deletedAt = none then { r with deletedAt := some now, updatedAt := now } else r)
  pure (s.conversationOf conversationId).isSome

/-! ## Branches -/

/-- `session[key] = v`. -/
def assign (session : Json) (key : String) (v : Json) : Sql Json :=
  match session.set key v with
  | some session' => pure session'
  | none => throw (.panic s!"cannot access key \"{key}\" in JSON {session.typeName}")

/-- A list of assignments, in order. -/
def assignAll (session : Json) : List (String × Json) → Sql Json
  | [] => pure session
  | (key, v) :: rest => do
    let session ← assign session key v
    assignAll session rest

/-- `session["messages"].as_array_mut()`: `None` on an object without such an
array (and on `null`, which indexing turns into an object), a panic on any other
document. -/
def messagesOf (session : Json) : Sql (List Json) :=
  match session with
  | .obj _ | .null =>
    match (session.get "messages").asArray with
    | some messages => pure messages
    | none => throw .conversationMessagesMissing
  | _ => throw (.panic s!"cannot access key \"messages\" in JSON {session.typeName}")

/-- `messages.iter().position(|message| message["id"].as_str() == Some(message_id))`. -/
def branchPoint (messages : List Json) (messageId : String) : Option ℕ :=
  messages.findIdx? fun message => (message.get "id").asStr = some messageId

def trimSessionForBranch (session : Json) (messageId newConversationId title : String) (now : ℤ) :
    Sql Json := do
  let messages ← messagesOf session
  match branchPoint messages messageId with
  | none => throw .branchMessageNotFound
  | some index =>
    assignAll session [
      ("messages", .arr (messages.take (index + 1))),
      ("sessionId", .str newConversationId),
      ("title", .str title),
      ("createdAt", .ofInt (now * 1000)),
      ("updatedAt", .ofInt (now * 1000)),
      ("input", .str ""),
      ("task", .null),
      ("effects", .arr []),
      ("clarification", .null),
      ("draft", .ofFields [("selections", .obj []), ("other", .obj [])]),
      ("checkpoint", .null)]

/-- The `branchOrigin` of a branch from a checkpoint, when one is asked for. -/
def checkpointOrigin (session : Json) (input : BranchConversation) : Sql (Option Json) := do
  match input.checkpointTaskId, input.checkpointAcceptedSeq with
  | none, none => pure none
  | some taskId, some acceptedSeq => do
    guardOr (taskId ≠ "" && taskId.utf8ByteSize ≤ 128) (.invalidData (.identity "checkpoint_task_id"))
    guardOr (1 ≤ acceptedSeq) .checkpointAcceptedSeqInvalid
    guardOr (((session.get "task").get "task_id").asStr = some taskId &&
        ((session.get "task").get "accepted_seq").asI64 = some acceptedSeq)
      .conversationCheckpointMismatch
    let s ← get
    match s.taskOf taskId with
    | some { acceptedSeq := durableSeq, checkpointJson := some checkpoint, .. } => do
      guardOr (durableSeq = acceptedSeq && (checkpoint.get "task_id").asStr = some taskId &&
          (checkpoint.get "accepted_seq").asI64 = some acceptedSeq)
        .durableCheckpointMismatch
      pure (some (.ofFields [
        ("kind", .str "durable_checkpoint"),
        ("task_id", .str taskId),
        ("accepted_seq", .ofInt acceptedSeq),
        ("phase", checkpoint.get "phase")]))
    | _ => throw .durableCheckpointNotFound
  | _, _ => throw .checkpointOriginIncomplete

/-- `if let Some(origin) = checkpoint_origin { session["branchOrigin"] = origin; }` -/
def recordOrigin (session : Json) : Option Json → Sql Json
  | some origin => assign session "branchOrigin" origin
  | none => pure session

/-- The row `branch_conversation` inserts. -/
def BranchConversation.row (input : BranchConversation) (now : ℤ) (title : String)
    (session : Json) : ConversationRow where
  conversationId := input.newConversationId
  title := title
  sessionJson := session
  parentConversationId := some input.sourceConversationId
  branchFromMessageId := some input.messageId
  deletedAt := none
  createdAt := now
  updatedAt := now

/-- `INSERT INTO agent_conversations_v2`. -/
def insertConversation (row : ConversationRow) : Sql Unit := do
  let s ← get
  guardOr (!s.hasConversation row.conversationId)
    (.sqlite "UNIQUE constraint failed: agent_conversations_v2.conversation_id")
  set (s.addConversation row)

def branchConversation (now : ℤ) (input : BranchConversation) : Sql StoredConversation := do
  validateIdentity input.sourceConversationId "source_conversation_id"
  validateIdentity input.newConversationId "new_conversation_id"
  validateIdentity input.messageId "message_id"
  let title ← validateTitle input.title
  atomically do
    let s ← get
    match s.conversationOf input.sourceConversationId with
    | none => throw .conversationNotFound
    | some source => do
      let origin ← checkpointOrigin source.sessionJson input
      let session ← trimSessionForBranch source.sessionJson input.messageId
        input.newConversationId title now
      let session ← recordOrigin session origin
      let session ← encodeSession session (.invalidData .conversationTooLarge)
      insertConversation (input.row now title session)
  readConversation input.newConversationId

def conversationSummary (row : ConversationRow) : ConversationSummary where
  conversationId := row.conversationId
  title := row.title
  phase := ((row.sessionJson.get "task").get "phase").asStr.getD "idle"
  messageCount := ((row.sessionJson.get "messages").asArray.map List.length).getD 0
  evidenceCount :=
    (((row.sessionJson.get "task").get "evidence_ids").asArray.map List.length).getD 0
  parentConversationId := row.parentConversationId
  branchFromMessageId := row.branchFromMessageId
  branchFromCheckpointTaskId := ((row.sessionJson.get "branchOrigin").get "task_id").asStr
  branchFromCheckpointSeq := ((row.sessionJson.get "branchOrigin").get "accepted_seq").asI64
  createdAt := row.createdAt
  updatedAt := row.updatedAt

end Astock
