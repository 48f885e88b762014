import Astock.Lib.Prog
import Astock.Lib.Json
import Astock.Lib.Table
import Astock.Spec.Frame

/-!
# The Engine's durable Agent store

`crates/engine/src/event_store.rs`: the tables `agent_tasks_v2`,
`agent_events_v2`, `agent_effects_v2` and `agent_conversations_v2`, and the
functions that write them. Every function runs as one job of the single database
thread, so calls do not interleave.

A `*_json` column is represented by the document it encodes: each is written by
`serde_json::to_string` only, which two documents share only when they are equal
and which `serde_json::from_str` reads back.
-/

namespace Astock

open Prog

/-! ## Tables -/

structure TaskRow where
  taskId : String
  reducerVersion : String
  taskSpecJson : Json
  phase : String
  acceptedSeq : ℤ
  checkpointJson : Option Json
  createdAt : ℤ
  updatedAt : ℤ
  deriving DecidableEq

structure EventRow where
  taskId : String
  seq : ℤ
  eventId : String
  eventKind : String
  eventJson : Json
  createdAt : ℤ
  deriving DecidableEq

structure EffectRow where
  effectId : String
  taskId : String
  causedBySeq : ℤ
  effectKind : String
  effectJson : Json
  status : String
  resultJson : Option Json
  idempotencyKey : String
  createdAt : ℤ
  updatedAt : ℤ
  deriving DecidableEq

structure ConversationRow where
  conversationId : String
  title : String
  sessionJson : Json
  parentConversationId : Option String
  branchFromMessageId : Option String
  deletedAt : Option ℤ
  createdAt : ℤ
  updatedAt : ℤ
  deriving DecidableEq

/-- The rows of the four tables, each in insertion order. -/
structure EngineStore where
  tasks : List TaskRow := []
  events : List EventRow := []
  effects : List EffectRow := []
  conversations : List ConversationRow := []
  deriving DecidableEq

namespace EngineStore

def taskOf (s : EngineStore) (taskId : String) : Option TaskRow :=
  Table.find TaskRow.taskId taskId s.tasks

def hasTask (s : EngineStore) (taskId : String) : Bool := (s.taskOf taskId).isSome

/-- The events of a task, in insertion order. -/
def eventsOf (s : EngineStore) (taskId : String) : List EventRow :=
  s.events.filter (·.taskId = taskId)

/-- `SELECT COALESCE(MAX(seq), 0) FROM agent_events_v2 WHERE task_id=?1`. -/
def maxSeq (s : EngineStore) (taskId : String) : ℤ :=
  ((s.eventsOf taskId).map (·.seq)).max?.getD 0

def eventAt (s : EngineStore) (taskId : String) (seq : ℤ) : Option EventRow :=
  s.events.find? fun e => e.taskId = taskId ∧ e.seq = seq

def effectOf (s : EngineStore) (effectId : String) : Option EffectRow :=
  Table.find EffectRow.effectId effectId s.effects

def addTask (s : EngineStore) (row : TaskRow) : EngineStore := { s with tasks := s.tasks ++ [row] }

def addEvent (s : EngineStore) (row : EventRow) : EngineStore :=
  { s with events := s.events ++ [row] }

def addEffect (s : EngineStore) (row : EffectRow) : EngineStore :=
  { s with effects := s.effects ++ [row] }

/-- `UPDATE agent_tasks_v2 .. WHERE task_id=?1`. -/
def updateTask (s : EngineStore) (taskId : String) (f : TaskRow → TaskRow) : EngineStore :=
  { s with tasks := Table.update TaskRow.taskId taskId f s.tasks }

/-- `UPDATE agent_effects_v2 .. WHERE effect_id=?1`. -/
def updateEffect (s : EngineStore) (effectId : String) (f : EffectRow → EffectRow) : EngineStore :=
  { s with effects := Table.update EffectRow.effectId effectId f s.effects }

/-- A conversation that is not soft-deleted. -/
def conversationOf (s : EngineStore) (conversationId : String) : Option ConversationRow :=
  s.conversations.find? fun c => c.conversationId = conversationId ∧ c.deletedAt = none

end EngineStore

/-! ## Outside the repository -/

/-- What the store takes from its libraries: the hex digest of `sha2`, and the
order in which SQLite hands over the rows of a query without `ORDER BY`. -/
structure Platform where
  sha256 : String → String
  visit : List EffectRow → List EffectRow
  visit_perm : ∀ rows, (visit rows).Perm rows

/-- A platform that hands over rows in insertion order. -/
def Platform.inOrder (sha256 : String → String) : Platform where
  sha256 := sha256
  visit := id
  visit_perm := fun _ => List.Perm.refl _

/-! ## Errors -/

/-- Why a call is answered with `Err`; `panic` is an unwinding panic. -/
inductive StoreError where
  | identity (name : String)
  | seqNotPositive
  | sequenceConflict (current received : ℤ)
  | sequenceGap (expected received : ℤ)
  | checkpointTooLarge
  | taskNotFound
  | checkpointSequenceInvalid (current durableMax received : ℤ)
  | idempotencyKeySize
  | causedBySeqNegative
  | effectTooLarge
  | effectIdentityConflict
  | invalidEffectTerminalStatus
  | effectResultTooLarge
  | effectNotFound
  | effectTerminalConflict
  | title
  | conversationTooLarge
  | conversationNotFound
  | checkpointAcceptedSeqInvalid
  | conversationCheckpointMismatch
  | durableCheckpointNotFound
  | durableCheckpointMismatch
  | checkpointOriginIncomplete
  | conversationMessagesMissing
  | branchMessageNotFound
  | invalidData (reason : StoreError)
  | sqlite (text : String)
  | panic (text : String)
  deriving DecidableEq

/-- The text of an error; `invalid data` marks the ones a database job raises. -/
def StoreError.message : StoreError → String
  | .identity name => s!"{name} must contain 1..128 bytes"
  | .seqNotPositive => "seq must be positive"
  | .sequenceConflict current received =>
    s!"invalid data: sequence_conflict: current={current}, received={received}"
  | .sequenceGap expected received =>
    s!"invalid data: sequence_gap: expected={expected}, received={received}"
  | .checkpointTooLarge => "checkpoint_too_large"
  | .taskNotFound => "invalid data: task_not_found"
  | .checkpointSequenceInvalid current durableMax received =>
    s!"invalid data: checkpoint_sequence_invalid: current={current}, durable_max={durableMax}, received={received}"
  | .idempotencyKeySize => "idempotency_key must contain 1..8 MiB bytes"
  | .causedBySeqNegative => "caused_by_seq must not be negative"
  | .effectTooLarge => "effect_too_large"
  | .effectIdentityConflict => "invalid data: effect_identity_conflict"
  | .invalidEffectTerminalStatus => "invalid_effect_terminal_status"
  | .effectResultTooLarge => "effect_result_too_large"
  | .effectNotFound => "invalid data: effect_not_found"
  | .effectTerminalConflict => "invalid data: effect_terminal_conflict"
  | .title => "title must contain 1..240 bytes"
  | .conversationTooLarge => "conversation_too_large: max=4194304"
  | .conversationNotFound => "invalid data: conversation_not_found"
  | .checkpointAcceptedSeqInvalid => "invalid data: checkpoint_accepted_seq_invalid"
  | .conversationCheckpointMismatch => "invalid data: conversation_checkpoint_mismatch"
  | .durableCheckpointNotFound => "invalid data: durable_checkpoint_not_found"
  | .durableCheckpointMismatch => "invalid data: durable_checkpoint_mismatch"
  | .checkpointOriginIncomplete => "invalid data: checkpoint_origin_incomplete"
  | .conversationMessagesMissing => "invalid data: conversation_messages_missing"
  | .branchMessageNotFound => "invalid data: branch_message_not_found"
  | .invalidData reason => s!"invalid data: {reason.message}"
  | .sqlite text => s!"sqlite error: {text}"
  | .panic text => text

/-- The errors that report a sequence number out of order. -/
def StoreError.isSequence : StoreError → Bool
  | .sequenceConflict _ _ | .sequenceGap _ _ | .checkpointSequenceInvalid _ _ _ => true
  | _ => false

/-- A job of the database thread. -/
abbrev Sql := Prog EngineStore StoreError

def maxConversationBytes : ℕ := 4 * 1024 * 1024

/-- What `validate_identity` accepts. -/
def ValidIdentity (value : String) : Prop := value ≠ "" ∧ value.utf8ByteSize ≤ 128

instance (value : String) : Decidable (ValidIdentity value) :=
  inferInstanceAs (Decidable (value ≠ "" ∧ value.utf8ByteSize ≤ 128))

def validateIdentity (value name : String) : Sql Unit :=
  guardOr (ValidIdentity value) (.identity name)

/-! ## Tasks and the event log -/

structure CreateTask where
  taskId : String
  reducerVersion : String
  taskSpec : Json
  phase : String
  deriving DecidableEq

structure AppendEvent where
  taskId : String
  seq : ℤ
  eventId : String
  eventKind : String
  event : Json
  deriving DecidableEq

structure PutCheckpoint where
  taskId : String
  acceptedSeq : ℤ
  phase : String
  checkpoint : Json
  deriving DecidableEq

/-- The row `create_task` inserts. -/
def CreateTask.row (input : CreateTask) (now : ℤ) : TaskRow where
  taskId := input.taskId
  reducerVersion := input.reducerVersion
  taskSpecJson := input.taskSpec
  phase := input.phase
  acceptedSeq := 0
  checkpointJson := none
  createdAt := now
  updatedAt := now

/-- The row `append_event` inserts. -/
def AppendEvent.row (input : AppendEvent) (now : ℤ) : EventRow where
  taskId := input.taskId
  seq := input.seq
  eventId := input.eventId
  eventKind := input.eventKind
  eventJson := input.event
  createdAt := now

/-- `INSERT OR IGNORE`: a task that exists is left alone. -/
def createTask (now : ℤ) (input : CreateTask) : Sql Bool := do
  validateIdentity input.taskId "task_id"
  validateIdentity input.reducerVersion "reducer_version"
  let s ← get
  if s.hasTask input.taskId then
    pure false
  else do
    set (s.addTask (input.row now))
    pure true

/-- `INSERT INTO agent_events_v2`, with the constraints of the table. -/
def insertEvent (row : EventRow) : Sql Unit := do
  let s ← get
  guardOr (!s.events.any fun e => e.taskId = row.taskId ∧ e.seq = row.seq)
    (.sqlite "UNIQUE constraint failed: agent_events_v2.task_id, agent_events_v2.seq")
  guardOr (!s.events.any (·.eventId = row.eventId))
    (.sqlite "UNIQUE constraint failed: agent_events_v2.event_id")
  guardOr (s.hasTask row.taskId) (.sqlite "FOREIGN KEY constraint failed")
  set (s.addEvent row)

def appendEvent (now : ℤ) (input : AppendEvent) : Sql Bool := do
  validateIdentity input.taskId "task_id"
  validateIdentity input.eventId "event_id"
  guardOr (0 < input.seq) .seqNotPositive
  atomically do
    let s ← get
    let current := s.maxSeq input.taskId
    if input.seq ≤ current then
      match s.eventAt input.taskId input.seq with
      | some existing =>
        -- the stored `event_kind` is not read back here
        if existing.eventId = input.eventId ∧ existing.eventJson = input.event then
          pure false
        else
          throw (.sequenceConflict current input.seq)
      | none => throw (.sequenceConflict current input.seq)
    else if input.seq ≠ current + 1 then
      throw (.sequenceGap (current + 1) input.seq)
    else do
      insertEvent (input.row now)
      pure true

/-- The row of a task after `UPDATE agent_tasks_v2 SET phase, accepted_seq, ..`. -/
def TaskRow.accept (row : TaskRow) (now : ℤ) (input : PutCheckpoint) : TaskRow :=
  { row with
    phase := input.phase
    acceptedSeq := input.acceptedSeq
    checkpointJson := some input.checkpoint
    updatedAt := now }

def putCheckpoint (now : ℤ) (input : PutCheckpoint) : Sql Unit := do
  guardOr (input.checkpoint.textLen ≤ maxFrameBytes) .checkpointTooLarge
  atomically do
    let s ← get
    match s.taskOf input.taskId with
    | none => throw .taskNotFound
    | some row =>
      let durableMax := s.maxSeq input.taskId
      if input.acceptedSeq < row.acceptedSeq ∨ durableMax < input.acceptedSeq then
        throw (.checkpointSequenceInvalid row.acceptedSeq durableMax input.acceptedSeq)
      else
        set (s.updateTask input.taskId (·.accept now input))

/-! ## Effects -/

structure BeginEffect where
  effectId : String
  taskId : String
  causedBySeq : ℤ
  effectKind : String
  effect : Json
  idempotencyKey : String
  deriving DecidableEq

structure CompleteEffect where
  effectId : String
  status : String
  result : Json
  deriving DecidableEq

/-- The row `begin_effect` inserts. -/
def BeginEffect.row (input : BeginEffect) (now : ℤ) (key : String) : EffectRow where
  effectId := input.effectId
  taskId := input.taskId
  causedBySeq := input.causedBySeq
  effectKind := input.effectKind
  effectJson := input.effect
  status := "pending"
  resultJson := none
  idempotencyKey := key
  createdAt := now
  updatedAt := now

section Effects

variable (P : Platform)

/-- The stored form of an idempotency key. -/
def idempotencyDigest (value : String) : String := "sha256:" ++ P.sha256 value

def normalizeIdempotencyKey (value : String) : Sql String := do
  guardOr (value ≠ "" && value.utf8ByteSize ≤ maxFrameBytes) .idempotencyKeySize
  pure (idempotencyDigest P value)

/-- The rows `WHERE effect_id=?1 OR idempotency_key=?2` matches. -/
def EngineStore.effectsMatching (s : EngineStore) (effectId key : String) : List EffectRow :=
  s.effects.filter fun e => e.effectId = effectId ∨ e.idempotencyKey = key

/-- The row `query_row` reads: the first one SQLite hands over. -/
def EngineStore.effectFound (s : EngineStore) (effectId key : String) : Option EffectRow :=
  (P.visit (s.effectsMatching effectId key)).head?

def beginEffect (now : ℤ) (input : BeginEffect) : Sql Bool := do
  validateIdentity input.effectId "effect_id"
  validateIdentity input.taskId "task_id"
  validateIdentity input.effectKind "effect_kind"
  let key ← normalizeIdempotencyKey P input.idempotencyKey
  guardOr (0 ≤ input.causedBySeq) .causedBySeqNegative
  guardOr (input.effect.textLen ≤ maxFrameBytes) .effectTooLarge
  atomically do
    let s ← get
    match s.effectFound P input.effectId key with
    | some existing =>
      if existing.effectId = input.effectId ∧ existing.taskId = input.taskId ∧
          existing.effectKind = input.effectKind ∧ existing.effectJson = input.effect then
        pure false
      else
        throw .effectIdentityConflict
    | none => do
      guardOr (s.hasTask input.taskId) (.sqlite "FOREIGN KEY constraint failed")
      set (s.addEffect (input.row now key))
      pure true

/-- The row of an effect after `UPDATE agent_effects_v2 SET status, result_json, ..`. -/
def EffectRow.finish (row : EffectRow) (now : ℤ) (input : CompleteEffect) : EffectRow :=
  { row with status := input.status, resultJson := some input.result, updatedAt := now }

def completeEffect (now : ℤ) (input : CompleteEffect) : Sql Unit := do
  validateIdentity input.effectId "effect_id"
  guardOr (input.status = "succeeded" || input.status = "failed" || input.status = "cancelled")
    .invalidEffectTerminalStatus
  guardOr (input.result.textLen ≤ maxFrameBytes) .effectResultTooLarge
  atomically do
    let s ← get
    match s.effectOf input.effectId with
    | none => throw .effectNotFound
    | some row =>
      if row.status ≠ "pending" then
        if row.status = input.status ∧ row.resultJson = some input.result then
          pure ()
        else
          throw .effectTerminalConflict
      else
        set (s.updateEffect input.effectId (·.finish now input))

end Effects

end Astock
