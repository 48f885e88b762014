import Astock.Proof.StoreSteps

/-!
# What one conversation call can do

The conversation functions write the conversation table only (`SameLog`), and
`branchConversation_spec` says what a branch holds: `Trimmed` is the session a
branch copies, field by field.
-/

namespace Astock

open Prog

variable {P : Platform} {s : EngineStore} {now : ℤ}

attribute [local irreducible] Triple

/-- The tables of tasks, events and effects are the same. -/
def SameLog (s s' : EngineStore) : Prop :=
  s'.tasks = s.tasks ∧ s'.events = s.events ∧ s'.effects = s.effects

theorem validateTitle_spec (title : String) :
    Triple (· = s) (validateTitle title) (fun t s' => t = Text.trim title ∧ s' = s)
      (fun _ s' => s' = s) := by
  unfold validateTitle
  refine triple_guardOr (fun _ => ?_) fun _ _ hs => hs
  exact triple_pure fun _ hs => ⟨rfl, hs⟩

theorem encodeSession_spec (session : Json) (tooLarge : StoreError) :
    Triple (· = s) (encodeSession session tooLarge) (fun j s' => j = session ∧ s' = s)
      (fun _ s' => s' = s) := by
  unfold encodeSession
  refine triple_guardOr (fun _ => ?_) fun _ _ hs => hs
  exact triple_pure fun _ hs => ⟨rfl, hs⟩

section

variable {α : Type} {R : α → EngineStore → Prop} {E : StoreError → EngineStore → Prop}

theorem triple_validateTitle {title : String} {f : String → Sql α}
    (hf : Triple (· = s) (f (Text.trim title)) R E) (he : ∀ e, E e s) :
    Triple (· = s) (validateTitle title >>= f) R E := by
  refine triple_bind ((validateTitle_spec title).conseq (fun _ h => h) (fun _ _ h => h)
    fun e s' h => h ▸ he e) fun t => triple_pure_pre fun ht => ?_
  rw [ht]
  exact hf

theorem triple_encodeSession {session : Json} {tooLarge : StoreError} {f : Json → Sql α}
    (hf : Triple (· = s) (f session) R E) (he : ∀ e, E e s) :
    Triple (· = s) (encodeSession session tooLarge >>= f) R E := by
  refine triple_bind ((encodeSession_spec session tooLarge).conseq (fun _ h => h)
    (fun _ _ h => h) fun e s' h => h ▸ he e) fun j => triple_pure_pre fun hj => ?_
  rw [hj]
  exact hf

end

theorem readConversation_spec (conversationId : String) :
    Triple (· = s) (readConversation conversationId)
      (fun r s' => s' = s ∧ ∃ row, s.conversationOf conversationId = some row ∧ r = row.stored)
      (fun _ s' => s' = s ∧ s.conversationOf conversationId = none) := by
  unfold readConversation
  refine triple_get_eq ?_
  split
  · rename_i row hrow
    exact triple_pure fun _ hs => ⟨hs, row, hrow, rfl⟩
  · rename_i hnone
    exact triple_throw fun _ hs => ⟨hs, hnone⟩

theorem saveConversation_sameLog (input : SaveConversation) :
    Triple (· = s) (saveConversation now input) (fun _ s' => SameLog s s')
      (fun _ s' => SameLog s s') := by
  have hs : SameLog s s := ⟨rfl, rfl, rfl⟩
  have read : ∀ s₁, SameLog s s₁ → Triple (· = s₁) (readConversation input.conversationId)
      (fun _ s' => SameLog s s') (fun _ s' => SameLog s s') := fun s₁ h =>
    (readConversation_spec _).conseq (fun _ h => h) (fun _ _ h' => h'.1 ▸ h) fun _ _ h' => h'.1 ▸ h
  unfold saveConversation
  refine triple_validateIdentity (fun _ => ?_) fun _ => hs
  refine triple_validateTitle ?_ fun _ => hs
  refine triple_encodeSession ?_ fun _ => hs
  refine triple_get_eq ?_
  split
  · exact triple_set_eq (read _ hs)
  · exact triple_set_eq (read _ hs)

theorem renameConversation_sameLog (input : RenameConversation) :
    Triple (· = s) (renameConversation now input) (fun _ s' => SameLog s s')
      (fun _ s' => SameLog s s') := by
  have hs : SameLog s s := ⟨rfl, rfl, rfl⟩
  unfold renameConversation
  refine triple_validateIdentity (fun _ => ?_) fun _ => hs
  refine triple_validateTitle ?_ fun _ => hs
  refine triple_get_eq (triple_ite (fun _ => ?_) fun _ => ?_)
  · refine triple_set_eq ?_
    exact (readConversation_spec _).conseq (fun _ h => h) (fun _ _ h' => h'.1 ▸ hs)
      fun _ _ h' => h'.1 ▸ hs
  · exact triple_throw fun _ h => h ▸ hs

theorem deleteConversation_sameLog (conversationId : String) :
    Triple (· = s) (deleteConversation now conversationId) (fun _ s' => SameLog s s')
      (fun _ s' => SameLog s s') := by
  have hs : SameLog s s := ⟨rfl, rfl, rfl⟩
  unfold deleteConversation
  refine triple_validateIdentity (fun _ => ?_) fun _ => hs
  refine triple_get_eq (triple_set_eq (triple_pure fun s' h => ?_))
  rw [h]
  exact hs

/-! ## Branches -/

theorem assign_spec (session : Json) (key : String) (v : Json) :
    Triple (· = s) (assign session key v) (fun j s' => session.set key v = some j ∧ s' = s)
      (fun _ s' => s' = s) := by
  unfold assign
  split
  · rename_i j hj
    exact triple_pure fun _ hs => ⟨hj, hs⟩
  · exact triple_throw fun _ hs => hs

/-- Assignments to distinct keys set those keys and no others. -/
theorem assignAll_spec : ∀ (fields : List (String × Json)), (fields.map Prod.fst).Nodup →
    ∀ session : Json, Triple (· = s) (assignAll session fields)
      (fun j s' => s' = s ∧ ∀ key, j.get key = (fields.lookup key).getD (session.get key))
      (fun _ s' => s' = s) := by
  intro fields
  induction fields with
  | nil => intro _ session; exact triple_pure fun _ hs => ⟨hs, fun _ => rfl⟩
  | cons f rest ih =>
    intro hd session
    obtain ⟨k, v⟩ := f
    rw [List.map_cons, List.nodup_cons] at hd
    refine triple_bind (assign_spec session k v) fun j₁ => triple_pure_pre fun h₁ => ?_
    refine (ih hd.2 j₁).conseq (fun _ h => h) ?_ fun _ _ h => h
    rintro j s' ⟨hs, hj⟩
    refine ⟨hs, fun key => ?_⟩
    rw [hj key, List.lookup_cons]
    by_cases hk : key = k
    · -- the later assignments do not touch `k`
      subst hk
      simp [Json.lookup_eq_none_of_notMem hd.1, Json.get_set_same h₁]
    · rw [Json.get_set_of_ne hk h₁, beq_eq_false_iff_ne.2 hk]

theorem messagesOf_spec (session : Json) :
    Triple (· = s) (messagesOf session)
      (fun messages s' => session.get "messages" = .arr messages ∧ s' = s) (fun _ s' => s' = s) := by
  unfold messagesOf
  split
  · split
    · rename_i messages hm
      refine triple_pure fun _ hs => ⟨?_, hs⟩
      unfold Json.asArray at hm
      split at hm
      · rename_i items hitems; rw [hitems, Option.some.inj hm]
      · simp at hm
    · exact triple_throw fun _ hs => hs
  · split
    · rename_i messages hm; simp [Json.get, Json.asArray] at hm
    · exact triple_throw fun _ hs => hs
  · exact triple_throw fun _ hs => hs

/-- A session trimmed for a branch at the message `messages[index]`: every field
a branch resets, and what is left of the rest. -/
structure Trimmed (session : Json) (messages : List Json) (index : ℕ)
    (newConversationId title : String) (now : ℤ) (j : Json) : Prop where
  messages : j.get "messages" = .arr (messages.take (index + 1))
  sessionId : j.get "sessionId" = .str newConversationId
  title : j.get "title" = .str title
  createdAt : j.get "createdAt" = .ofInt (now * 1000)
  updatedAt : j.get "updatedAt" = .ofInt (now * 1000)
  input : j.get "input" = .str ""
  task : j.get "task" = .null
  effects : j.get "effects" = .arr []
  clarification : j.get "clarification" = .null
  draft : j.get "draft" = .ofFields [("selections", .obj []), ("other", .obj [])]
  checkpoint : j.get "checkpoint" = .null
  /-- No other field is touched. -/
  rest : ∀ key, key ∉ ["messages", "sessionId", "title", "createdAt", "updatedAt", "input", "task",
    "effects", "clarification", "draft", "checkpoint"] → j.get key = session.get key

theorem trimSessionForBranch_spec (session : Json) (messageId newConversationId title : String)
    (now : ℤ) :
    Triple (· = s) (trimSessionForBranch session messageId newConversationId title now)
      (fun j s' => s' = s ∧ ∃ messages index, session.get "messages" = .arr messages ∧
        branchPoint messages messageId = some index ∧
        Trimmed session messages index newConversationId title now j)
      (fun _ s' => s' = s) := by
  unfold trimSessionForBranch
  refine triple_bind (messagesOf_spec session) fun messages => triple_pure_pre fun hm => ?_
  split
  · exact triple_throw fun _ hs => hs
  · rename_i index hindex
    refine (assignAll_spec _ (by simp) session).conseq (fun _ h => h) ?_ fun _ _ h => h
    rintro j _ ⟨rfl, hj⟩
    refine ⟨rfl, messages, index, hm, hindex, ?_⟩
    refine ⟨?_, ?_, ?_, ?_, ?_, ?_, ?_, ?_, ?_, ?_, ?_, fun key hkey => ?_⟩
    all_goals rw [hj]
    case refine_12 =>
      rw [Json.lookup_eq_none_of_notMem (by simpa using hkey)]; rfl
    all_goals simp [List.lookup_cons]

/-- An origin that names a checkpoint. -/
def NamesCheckpoint (origin : Json) (taskId : String) (acceptedSeq : ℤ) : Prop :=
  (origin.get "task_id").asStr = some taskId ∧ (origin.get "accepted_seq").asI64 = some acceptedSeq

/-- A branch asks for a checkpoint with both fields, or with neither. -/
theorem checkpointOrigin_spec (session : Json) (input : BranchConversation) :
    Triple (· = s) (checkpointOrigin session input)
      (fun origin s' => s' = s ∧
        match origin with
        | none => input.checkpointTaskId = none ∧ input.checkpointAcceptedSeq = none
        | some o => ∃ taskId acceptedSeq, input.checkpointTaskId = some taskId ∧
            input.checkpointAcceptedSeq = some acceptedSeq ∧ o ≠ .null ∧
            NamesCheckpoint o taskId acceptedSeq)
      (fun _ s' => s' = s) := by
  unfold checkpointOrigin
  split
  · rename_i h₁ h₂
    exact triple_pure fun _ hs => ⟨hs, h₁, h₂⟩
  · rename_i taskId acceptedSeq h₁ h₂
    refine triple_guardOr (fun _ => ?_) fun _ _ hs => hs
    refine triple_guardOr (fun hpos => ?_) fun _ _ hs => hs
    refine triple_guardOr (fun hsession => ?_) fun _ _ hs => hs
    refine triple_get_eq ?_
    split
    · refine triple_guardOr (fun _ => ?_) fun _ _ hs => hs
      simp only [Bool.and_eq_true, decide_eq_true_eq] at hsession
      refine triple_pure fun _ hs => ⟨hs, taskId, acceptedSeq, h₁, h₂, by simp [Json.ofFields], ?_, ?_⟩
      · rw [Json.get_ofFields (by simp)]; rfl
      · rw [Json.get_ofFields (by simp)]; exact Json.asI64_ofInt hsession.2
    · exact triple_throw fun _ hs => hs
  · exact triple_throw fun _ hs => hs

theorem insertConversation_spec (row : ConversationRow) :
    Triple (· = s) (insertConversation row)
      (fun _ s' => s.hasConversation row.conversationId = false ∧ s' = s.addConversation row)
      (fun _ s' => s' = s) := by
  unfold insertConversation
  refine triple_get_eq (triple_guardOr (fun h => ?_) fun _ _ hs => hs)
  exact triple_set_last ⟨by simpa using h, rfl⟩

/-- A new row is found under its id. -/
theorem conversationOf_addConversation {row : ConversationRow}
    (hnew : s.hasConversation row.conversationId = false) (hd : row.deletedAt = none) :
    (s.addConversation row).conversationOf row.conversationId = some row := by
  unfold EngineStore.conversationOf EngineStore.addConversation
  simp only [EngineStore.hasConversation, List.any_eq_false, decide_eq_true_eq] at hnew
  rw [List.find?_append, List.find?_eq_none.2]
  · simp [hd]
  · intro c hc
    simp [hnew c hc]

/-- What a branch stores as its session, for the document of its source. -/
def BranchSession (source : Json) (input : BranchConversation) (now : ℤ) (session : Json) : Prop :=
  ∃ messages index j, source.get "messages" = .arr messages ∧
    branchPoint messages input.messageId = some index ∧
    Trimmed source messages index input.newConversationId (Text.trim input.title) now j ∧
    ((input.checkpointTaskId = none ∧ input.checkpointAcceptedSeq = none ∧ session = j) ∨
      ∃ taskId acceptedSeq origin, input.checkpointTaskId = some taskId ∧
        input.checkpointAcceptedSeq = some acceptedSeq ∧ origin ≠ .null ∧
        NamesCheckpoint origin taskId acceptedSeq ∧ j.set "branchOrigin" origin = some session)

/-- **`branch_conversation`** adds one row, whose session is a trimmed copy of the
source's, and returns it; on an error it changes nothing. -/
theorem branchConversation_spec (input : BranchConversation) :
    Triple (· = s) (branchConversation now input)
      (fun r s' => ∃ source session, s.conversationOf input.sourceConversationId = some source ∧
        BranchSession source.sessionJson input now session ∧
        s' = s.addConversation (input.row now (Text.trim input.title) session) ∧
        s'.conversationOf input.newConversationId
          = some (input.row now (Text.trim input.title) session) ∧
        r = (input.row now (Text.trim input.title) session).stored)
      (fun _ s' => s' = s) := by
  unfold branchConversation
  refine triple_validateIdentity (fun _ => ?_) fun _ => rfl
  refine triple_validateIdentity (fun _ => ?_) fun _ => rfl
  refine triple_validateIdentity (fun _ => ?_) fun _ => rfl
  refine triple_validateTitle ?_ fun _ => rfl
  refine triple_bind (Q := fun _ s' => ∃ source session,
    s.conversationOf input.sourceConversationId = some source ∧
    BranchSession source.sessionJson input now session ∧
    s.hasConversation input.newConversationId = false ∧
    s' = s.addConversation (input.row now (Text.trim input.title) session)) ?_ fun _ => ?_
  · refine (triple_atomically (F := fun _ => True) (triple_get_eq ?_)).conseq (fun _ h => h)
      (fun _ _ h => h) fun _ _ h => h.2
    split
    · exact triple_throw fun _ _ => trivial
    · rename_i source hsource
      refine triple_bind ((checkpointOrigin_spec _ _).conseq (fun _ h => h)
        (fun _ _ h => ⟨h.2, h.1⟩) fun _ _ _ => trivial) fun origin => triple_pure_pre fun ho => ?_
      refine triple_bind ((trimSessionForBranch_spec _ _ _ _ _).conseq (fun _ h => h)
        (fun _ _ h => ⟨h.2, h.1⟩) fun _ _ _ => trivial) fun j => triple_pure_pre fun hj => ?_
      obtain ⟨messages, index, hm, hindex, htrim⟩ := hj
      refine triple_bind (Q := fun session s' => BranchSession source.sessionJson input now session ∧
        s' = s) ?_ fun session => triple_pure_pre fun hsession => ?_
      · cases origin with
        | none =>
          exact triple_pure fun _ hs =>
            ⟨⟨messages, index, j, hm, hindex, htrim, .inl ⟨ho.1, ho.2, rfl⟩⟩, hs⟩
        | some o =>
          obtain ⟨taskId, acceptedSeq, h₁, h₂, hne, hnames⟩ := ho
          refine (assign_spec _ _ _).conseq (fun _ h => h) ?_ fun _ _ _ => trivial
          rintro session _ ⟨hset, rfl⟩
          exact ⟨⟨messages, index, j, hm, hindex, htrim,
            .inr ⟨taskId, acceptedSeq, o, h₁, h₂, hne, hnames, hset⟩⟩, rfl⟩
      refine triple_encodeSession ?_ fun _ => trivial
      refine (insertConversation_spec _).conseq (fun _ h => h) ?_ fun _ _ _ => trivial
      rintro _ _ ⟨hnew, rfl⟩
      exact ⟨source, session, hsource, hsession, hnew, rfl⟩
  · refine triple_each fun s₁ hs₁ => ?_
    obtain ⟨source, session, hsource, hsession, hnew, rfl⟩ := hs₁
    set row := input.row now (Text.trim input.title) session with hrow
    have hfound : (s.addConversation row).conversationOf input.newConversationId = some row :=
      conversationOf_addConversation hnew rfl
    refine (readConversation_spec input.newConversationId).conseq (fun _ h => h) ?_ ?_
    · rintro _ _ ⟨rfl, row', hrow', rfl⟩
      obtain rfl := Option.some.inj (hfound.symm.trans hrow')
      exact ⟨source, session, hsource, hsession, rfl, hfound, rfl⟩
    · rintro _ _ ⟨-, hnone⟩
      exact absurd (hfound.symm.trans hnone) (by simp)

end Astock
