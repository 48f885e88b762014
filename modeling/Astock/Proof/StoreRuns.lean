import Astock.Proof.ConversationSteps

/-!
# Runs of the Agent store

`StoreStep` lists what one call can do to the rows of tasks, events and effects;
`prog_spec` reads it off the triples of the functions. Invariants of the store
are proved by cases on it.
-/

namespace Astock

open Prog

variable {P : Platform} {s : EngineStore}

/-- What one call does to the tables of tasks, events and effects. -/
inductive StoreStep (P : Platform) (s : EngineStore) : EngineStore → Prop
  | same {s' : EngineStore} : SameLog s s' → StoreStep P s s'
  | create (now : ℤ) (input : CreateTask) : ValidIdentity input.taskId →
      s.hasTask input.taskId = false → StoreStep P s (s.addTask (input.row now))
  | append (now : ℤ) (input : AppendEvent) : ValidIdentity input.taskId →
      ValidIdentity input.eventId → input.seq = s.maxSeq input.taskId + 1 →
      (∀ e ∈ s.events, e.eventId ≠ input.eventId) → s.hasTask input.taskId = true →
      StoreStep P s (s.addEvent (input.row now))
  | accept (now : ℤ) (input : PutCheckpoint) (row : TaskRow) : s.taskOf input.taskId = some row →
      row.acceptedSeq ≤ input.acceptedSeq → input.acceptedSeq ≤ s.maxSeq input.taskId →
      StoreStep P s (s.updateTask input.taskId (·.accept now input))
  | begin (now : ℤ) (input : BeginEffect) : input.Valid → input.found P s = none →
      s.hasTask input.taskId = true →
      StoreStep P s (s.addEffect (input.row now (idempotencyDigest P input.idempotencyKey)))
  | finish (now : ℤ) (input : CompleteEffect) (row : EffectRow) : input.Valid →
      s.effectOf input.effectId = some row → row.status = "pending" →
      StoreStep P s (s.updateEffect input.effectId (·.finish now input))

theorem SameLog.refl (s : EngineStore) : SameLog s s := ⟨rfl, rfl, rfl⟩

/-- **Every call is one of the steps, and a call answered with an error changes no
task, event or effect.** -/
theorem prog_spec (c : StoreCall) :
    Triple (· = s) (c.prog P) (fun _ s' => StoreStep P s s') (fun _ s' => SameLog s s') := by
  have drop : ∀ {α : Type} {x : Sql α} {Q : α → EngineStore → Prop} {E : StoreError → EngineStore → Prop},
      Triple (· = s) x Q E → (∀ a s', Q a s' → StoreStep P s s') → (∀ e s', E e s' → SameLog s s') →
      Triple (· = s) (do let _ ← x) (fun _ s' => StoreStep P s s') (fun _ s' => SameLog s s') :=
    fun h hQ hE => triple_bind (h.conseq (fun _ h => h) hQ hE) fun _ => triple_pure fun _ h => h
  cases c with
  | createTask now input =>
    refine drop (createTask_spec now input) ?_ fun _ _ h => h ▸ SameLog.refl s
    rintro (_ | _) s' h
    · exact .same (h.2 ▸ SameLog.refl s)
    · obtain ⟨hid, hnew, rfl⟩ := h
      exact .create now input hid hnew
  | appendEvent now input =>
    refine drop (appendEvent_spec now input) ?_ fun _ _ h => h.2 ▸ SameLog.refl s
    rintro (_ | _) s' h
    · exact .same (h.1 ▸ SameLog.refl s)
    · obtain ⟨⟨htask, hid⟩, ⟨-, hseq⟩, hfresh, ht, rfl⟩ := h
      exact .append now input htask hid hseq hfresh ht
  | putCheckpoint now input =>
    refine (putCheckpoint_spec now input).conseq (fun _ h => h) ?_ fun _ _ h => h.2 ▸ SameLog.refl s
    rintro _ s' ⟨row, hrow, hle, hmax, rfl⟩
    exact .accept now input row hrow hle hmax
  | beginEffect now input =>
    refine drop (beginEffect_spec now input) ?_ fun _ _ h => h.2 ▸ SameLog.refl s
    rintro (_ | _) s' h
    · exact .same (h.2.1 ▸ SameLog.refl s)
    · obtain ⟨hvalid, hnone, ht, rfl⟩ := h
      exact .begin now input hvalid hnone ht
  | completeEffect now input =>
    refine (completeEffect_spec now input).conseq (fun _ h => h) ?_ fun _ _ h => h.2 ▸ SameLog.refl s
    rintro _ s' ⟨hvalid, row, hrow, ⟨hpend, rfl⟩ | ⟨-, -, rfl⟩⟩
    · exact .finish now input row hvalid hrow hpend
    · exact .same (SameLog.refl _)
  | saveConversation now input =>
    exact drop (saveConversation_sameLog input) (fun _ _ h => .same h) fun _ _ h => h
  | renameConversation now input =>
    exact drop (renameConversation_sameLog input) (fun _ _ h => .same h) fun _ _ h => h
  | deleteConversation now conversationId =>
    exact drop (deleteConversation_sameLog conversationId) (fun _ _ h => .same h) fun _ _ h => h
  | branchConversation now input =>
    refine drop (branchConversation_spec input) ?_ fun _ _ h => h ▸ SameLog.refl s
    rintro _ s' ⟨_, _, _, _, rfl, _⟩
    exact .same ⟨rfl, rfl, rfl⟩

theorem after_step (s : EngineStore) (c : StoreCall) : StoreStep P s (s.after P c) := by
  have h := prog_spec (P := P) c s rfl
  unfold EngineStore.after
  rcases hr : exec (c.prog P) s with ⟨e | a, s'⟩
  · rw [hr] at h; exact .same h
  · rw [hr] at h; exact h

end Astock
