import Astock.Spec.StoreCalls

/-!
# What one call of the Agent store can do

One triple for each function, from a known store: what each exit says about the
input, and the rows it leaves. An error exit always leaves the rows as they were.
Every invariant of the store is proved from these.
-/

namespace Astock

open Prog

variable {P : Platform} {s : EngineStore} {now : ℤ}

theorem triple_validateIdentity {α : Type} {value name : String} {f : Unit → Sql α}
    {R : α → EngineStore → Prop} {E : StoreError → EngineStore → Prop}
    (hf : ValidIdentity value → Triple (· = s) (f ()) R E)
    (he : ¬ ValidIdentity value → E (.identity name) s) :
    Triple (· = s) (validateIdentity value name >>= f) R E := by
  refine triple_guardOr (fun hc => hf (by simpa using hc)) fun hc s' hs => ?_
  subst hs
  exact he (by simpa using hc)

theorem exec_validateIdentity_bind {α : Type} {value name : String} {f : Unit → Sql α}
    (h : ValidIdentity value) : exec (validateIdentity value name >>= f) s = exec (f ()) s := by
  unfold validateIdentity
  rw [exec_guardOr_bind, decide_eq_true h]
  rfl

/-- **`create_task`** inserts a fresh task row, or leaves the rows alone. -/
theorem createTask_spec (now : ℤ) (input : CreateTask) :
    Triple (· = s) (createTask now input)
      (fun inserted s' =>
        if inserted then
          ValidIdentity input.taskId ∧ s.hasTask input.taskId = false ∧ s' = s.addTask (input.row now)
        else s.hasTask input.taskId = true ∧ s' = s)
      (fun _ s' => s' = s) := by
  unfold createTask
  refine triple_validateIdentity (fun hid => ?_) fun _ => rfl
  refine triple_validateIdentity (fun _ => ?_) fun _ => rfl
  refine triple_get_eq (triple_ite (fun ht => ?_) fun ht => ?_)
  · rintro _ rfl; exact ⟨ht, rfl⟩
  · rintro _ rfl; exact ⟨hid, by simpa using ht, rfl⟩

theorem insertEvent_spec (row : EventRow) :
    Triple (· = s) (insertEvent row)
      (fun _ s' => (∀ e ∈ s.events, e.eventId ≠ row.eventId) ∧ s.hasTask row.taskId = true ∧
        s' = s.addEvent row)
      (fun e _ => e.isSequence = false) := by
  unfold insertEvent
  refine triple_get_eq ?_
  refine triple_guardOr (fun _ => ?_) fun _ _ _ => rfl
  refine triple_guardOr (fun hid => ?_) fun _ _ _ => rfl
  refine triple_guardOr (fun htask => ?_) fun _ _ _ => rfl
  rintro _ rfl
  exact ⟨by simpa using hid, htask, rfl⟩

/-- **`append_event`** inserts the event at the next sequence number, or finds the
same event id and body at the given one and leaves the rows alone. At the next
sequence number no error is about the sequence. -/
theorem appendEvent_spec (now : ℤ) (input : AppendEvent) :
    Triple (· = s) (appendEvent now input)
      (fun inserted s' =>
        if inserted then
          (ValidIdentity input.taskId ∧ ValidIdentity input.eventId) ∧
            (0 < input.seq ∧ input.seq = s.maxSeq input.taskId + 1) ∧
            (∀ e ∈ s.events, e.eventId ≠ input.eventId) ∧ s.hasTask input.taskId = true ∧
            s' = s.addEvent (input.row now)
        else s' = s ∧ ∃ row, s.eventAt input.taskId input.seq = some row ∧
          row.eventId = input.eventId ∧ row.eventJson = input.event)
      (fun e s' => (e.isSequence = true → input.seq ≠ s.maxSeq input.taskId + 1) ∧ s' = s) := by
  unfold appendEvent
  refine triple_validateIdentity (fun htask => ?_) fun _ => ⟨by simp [StoreError.isSequence], rfl⟩
  refine triple_validateIdentity (fun hid => ?_) fun _ => ⟨by simp [StoreError.isSequence], rfl⟩
  refine triple_guardOr (fun hpos => ?_) fun _ s' hs => ⟨by simp [StoreError.isSequence], hs⟩
  have hpos : 0 < input.seq := by simpa using hpos
  refine triple_atomically
    (F := fun e : StoreError => e.isSequence = true → input.seq ≠ s.maxSeq input.taskId + 1) ?_
  refine triple_get_eq (triple_ite (fun hle => ?_) fun hgt => triple_ite (fun hgap => ?_) fun hnext => ?_)
  · -- a sequence number in use: only the same event is a replay
    split
    · rename_i row hrow
      refine triple_ite (fun hsame => ?_) fun _ => ?_
      · rintro _ rfl; exact ⟨rfl, row, hrow, hsame⟩
      · rintro _ rfl _; omega
    · rintro _ rfl _; omega
  · rintro _ rfl _; exact hgap
  · refine triple_bind ((insertEvent_spec _).conseq (fun _ h => h) (fun _ _ h => h) ?_) fun _ => ?_
    · intro e _ he hseq; rw [he] at hseq; simp at hseq
    · rintro _ ⟨hids, ht, rfl⟩
      exact ⟨⟨htask, hid⟩, ⟨hpos, by simpa using hnext⟩, hids, ht, rfl⟩

/-- **`put_checkpoint`** moves the accepted sequence number of an existing task
forward, at most to the last stored event. An error about the sequence means the
given number lies outside that range. -/
theorem putCheckpoint_spec (now : ℤ) (input : PutCheckpoint) :
    Triple (· = s) (putCheckpoint now input)
      (fun _ s' => ∃ row, s.taskOf input.taskId = some row ∧ row.acceptedSeq ≤ input.acceptedSeq ∧
        input.acceptedSeq ≤ s.maxSeq input.taskId ∧
        s' = s.updateTask input.taskId (·.accept now input))
      (fun e s' => (e.isSequence = true → ∃ row, s.taskOf input.taskId = some row ∧
        (input.acceptedSeq < row.acceptedSeq ∨ s.maxSeq input.taskId < input.acceptedSeq)) ∧
        s' = s) := by
  unfold putCheckpoint
  refine triple_guardOr (fun _ => ?_) fun _ s' hs => ⟨by simp [StoreError.isSequence], hs⟩
  refine triple_atomically (F := fun e : StoreError => e.isSequence = true →
    ∃ row, s.taskOf input.taskId = some row ∧
      (input.acceptedSeq < row.acceptedSeq ∨ s.maxSeq input.taskId < input.acceptedSeq)) ?_
  refine triple_get_eq ?_
  split
  · rintro _ rfl h; simp [StoreError.isSequence] at h
  · rename_i row hrow
    refine triple_ite (fun hbad => ?_) fun hgood => ?_
    · rintro _ rfl _; exact ⟨row, hrow, hbad⟩
    · rintro _ rfl; exact ⟨row, hrow, by omega, by omega, rfl⟩

section Effects

/-- What `begin_effect` checks before it opens its transaction. -/
structure BeginEffect.Valid (input : BeginEffect) : Prop where
  effectId : ValidIdentity input.effectId
  taskId : ValidIdentity input.taskId
  effectKind : ValidIdentity input.effectKind
  key : input.idempotencyKey ≠ "" ∧ input.idempotencyKey.utf8ByteSize ≤ maxFrameBytes
  causedBySeq : 0 ≤ input.causedBySeq
  effect : input.effect.textLen ≤ maxFrameBytes

/-- What `begin_effect` compares with the row it finds. -/
def BeginEffect.Matches (input : BeginEffect) (row : EffectRow) : Prop :=
  row.effectId = input.effectId ∧ row.taskId = input.taskId ∧
    row.effectKind = input.effectKind ∧ row.effectJson = input.effect

/-- The row `begin_effect` reads. -/
def BeginEffect.found (P : Platform) (s : EngineStore) (input : BeginEffect) : Option EffectRow :=
  s.effectFound P input.effectId (idempotencyDigest P input.idempotencyKey)

/-- **`begin_effect`** finds a row that matches and leaves the rows alone, or finds
none and inserts a pending row of an existing task. -/
theorem beginEffect_spec (now : ℤ) (input : BeginEffect) :
    Triple (· = s) (beginEffect P now input)
      (fun inserted s' => input.Valid ∧
        if inserted then
          input.found P s = none ∧ s.hasTask input.taskId = true ∧
            s' = s.addEffect (input.row now (idempotencyDigest P input.idempotencyKey))
        else s' = s ∧ ∃ row, input.found P s = some row ∧ input.Matches row)
      (fun e s' => (e.isSequence = false ∧
        (input.Valid → ∀ row, input.found P s = some row → ¬ input.Matches row)) ∧ s' = s) := by
  unfold beginEffect normalizeIdempotencyKey
  refine triple_validateIdentity (fun hid => ?_) fun h => ⟨⟨rfl, fun hv => absurd hv.effectId h⟩, rfl⟩
  refine triple_validateIdentity (fun htask => ?_) fun h => ⟨⟨rfl, fun hv => absurd hv.taskId h⟩, rfl⟩
  refine triple_validateIdentity (fun hkind => ?_)
    fun h => ⟨⟨rfl, fun hv => absurd hv.effectKind h⟩, rfl⟩
  rw [bind_assoc]
  refine triple_guardOr (fun hkey => ?_)
    fun h s' hs => ⟨⟨rfl, fun hv => by simp [hv.key.1, hv.key.2] at h⟩, hs⟩
  rw [pure_bind]
  refine triple_guardOr (fun hseq => ?_)
    fun h s' hs => ⟨⟨rfl, fun hv => by simp [hv.causedBySeq] at h⟩, hs⟩
  refine triple_guardOr (fun hlen => ?_)
    fun h s' hs => ⟨⟨rfl, fun hv => by simp [hv.effect] at h⟩, hs⟩
  have hvalid : input.Valid :=
    ⟨hid, htask, hkind, by simpa using hkey, by simpa using hseq, by simpa using hlen⟩
  refine triple_atomically (F := fun e : StoreError => e.isSequence = false ∧
    (input.Valid → ∀ row, input.found P s = some row → ¬ input.Matches row)) (triple_get_eq ?_)
  split
  · rename_i row hrow
    refine triple_ite (fun hsame => ?_) fun hdiff => ?_
    · rintro _ rfl; exact ⟨hvalid, rfl, row, hrow, hsame⟩
    · rintro _ rfl
      refine ⟨rfl, fun _ row' hrow' => ?_⟩
      obtain rfl := Option.some.inj (hrow.symm.trans hrow')
      exact hdiff
  · rename_i hnone
    refine triple_guardOr (fun ht => ?_) fun _ _ _ => ⟨rfl, fun _ row hrow => ?_⟩
    · rintro _ rfl; exact ⟨hvalid, hnone, ht, rfl⟩
    · rw [BeginEffect.found, hnone] at hrow; simp at hrow

/-- The terminal statuses of an effect. -/
def TerminalStatus (status : String) : Prop :=
  status = "succeeded" ∨ status = "failed" ∨ status = "cancelled"

theorem TerminalStatus.ne_pending {status : String} (h : TerminalStatus status) :
    status ≠ "pending" := by
  rcases h with rfl | rfl | rfl <;> decide

/-- What `complete_effect` checks before it opens its transaction. -/
structure CompleteEffect.Valid (input : CompleteEffect) : Prop where
  effectId : ValidIdentity input.effectId
  status : TerminalStatus input.status
  result : input.result.textLen ≤ maxFrameBytes

/-- The row has the status and the result of the call. -/
def CompleteEffect.Matches (input : CompleteEffect) (row : EffectRow) : Prop :=
  row.status = input.status ∧ row.resultJson = some input.result

/-- **`complete_effect`** finishes a pending effect, or finds it finished with the
same status and result and leaves the rows alone. -/
theorem completeEffect_spec (now : ℤ) (input : CompleteEffect) :
    Triple (· = s) (completeEffect now input)
      (fun _ s' => input.Valid ∧ ∃ row, s.effectOf input.effectId = some row ∧
        ((row.status = "pending" ∧ s' = s.updateEffect input.effectId (·.finish now input)) ∨
          (row.status ≠ "pending" ∧ input.Matches row ∧ s' = s)))
      (fun e s' => (e.isSequence = false ∧ (input.Valid →
        ∀ row, s.effectOf input.effectId = some row →
          row.status ≠ "pending" ∧ ¬ input.Matches row)) ∧ s' = s) := by
  unfold completeEffect
  refine triple_validateIdentity (fun hid => ?_) fun h => ⟨⟨rfl, fun hv => absurd hv.effectId h⟩, rfl⟩
  refine triple_guardOr (fun hst => ?_) fun h s' hs => ⟨⟨rfl, fun hv => ?_⟩, hs⟩
  swap
  · rcases hv.status with h' | h' | h' <;> simp [h'] at h
  have hst : TerminalStatus input.status := by
    simpa [TerminalStatus, or_assoc] using hst
  refine triple_guardOr (fun hlen => ?_)
    fun h s' hs => ⟨⟨rfl, fun hv => by simp [hv.result] at h⟩, hs⟩
  have hvalid : input.Valid := ⟨hid, hst, by simpa using hlen⟩
  refine triple_atomically (F := fun e : StoreError => e.isSequence = false ∧ (input.Valid →
    ∀ row, s.effectOf input.effectId = some row →
      row.status ≠ "pending" ∧ ¬ input.Matches row)) (triple_get_eq ?_)
  split
  · rename_i hnone
    rintro _ rfl
    exact ⟨rfl, fun _ row hrow => by rw [hnone] at hrow; simp at hrow⟩
  · rename_i row hrow
    refine triple_ite (fun hdone => triple_ite (fun hsame => ?_) fun hdiff => ?_) fun hpend => ?_
    · rintro _ rfl; exact ⟨hvalid, row, hrow, .inr ⟨hdone, hsame, rfl⟩⟩
    · rintro _ rfl
      refine ⟨rfl, fun _ row' hrow' => ?_⟩
      obtain rfl := Option.some.inj (hrow.symm.trans hrow')
      exact ⟨hdone, hdiff⟩
    · rintro _ rfl; exact ⟨hvalid, row, hrow, .inl ⟨by simpa using hpend, rfl⟩⟩

end Effects

end Astock
