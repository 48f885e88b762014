import Astock.Proof.RunInvariant

/-!
# What the steps of a running task do

* `appendCall_spec`, `checkpointCall_spec`, `beginCall_spec`, `completeCall_spec`:
  one store call, from a known world.
* `Recording` and `record_spec`: the four ways of recording an event.
* `record_live`, `completeRun_spec`, `beginEffect_live`, `completeEffect_live`,
  `notify`, `ensureActive`, `failWith`: what they do to a running task. Each keeps it
  running, or leaves it `Stopped`.
-/

namespace Astock

open Prog

/-! ## Store calls -/

/-- The answer is a failure, whose reason satisfies `F` when it is a refusal. -/
def CallAnswer.Fails (F : StoreError → Prop) : CallAnswer → Prop
  | .ok => False
  | .fault _ => True
  | .refused e => F e

theorem CallAnswer.Fails.failsOutright {answer : CallAnswer}
    (h : answer.Fails fun e => e.isSequence = false) : answer.failsOutright = true := by
  cases answer with
  | ok => exact absurd h id
  | fault _ => rfl
  | refused e => simpa [CallAnswer.failsOutright, CallAnswer.Fails] using h

/-- The world after a store call that was answered with `answer` and left the rows `s`. -/
def World.answered {C : Type} (c : StoreCall) (answer : CallAnswer) (s : EngineStore)
    (w : World C) : World C :=
  { w.advance.note (.call c answer) with store := s }

section Answered

variable {C : Type} {c : StoreCall} {answer : CallAnswer} {s : EngineStore} {u : World C}

@[simp] theorem answered_run : (u.answered c answer s).run = u.run := rfl

@[simp] theorem answered_store : (u.answered c answer s).store = s := rfl

@[simp] theorem answered_trace : (u.answered c answer s).trace = u.trace ++ [.call c answer] := rfl

end Answered

variable {A : AgentRuntime} {w : World A.reports.Catalog}

theorem triple_storeCall {c : ℤ → StoreCall} {Q : ℤ → EngineStore → Prop} {F : StoreError → Prop}
    (h : ∀ now, Triple (· = w.store) ((c now).prog A.platform.toPlatform) (fun _ s => Q now s)
      fun e s => F e ∧ s = w.store) :
    Triple (· = w) (A.storeCall c)
      (fun _ w' => ∃ now s, Q now s ∧ w' = w.answered (c now) .ok s)
      (fun e w' => (∃ text, e = .store text) ∧ ∃ now answer, answer.Fails F ∧
        w' = w.answered (c now) answer w.store) := by
  rintro w rfl
  unfold AgentRuntime.storeCall
  rw [exec_bind_ok (exec_get w), exec_bind_ok (exec_set _ _)]
  unfold AgentRuntime.served AgentRuntime.serve
  have h := h (A.env.now w.clock / 1000000000) w.store rfl
  cases hf : A.env.storeFault w.clock with
  | some text => exact ⟨⟨text, rfl⟩, _, .fault text, trivial, rfl⟩
  | none =>
    rcases hr : exec ((c (A.env.now w.clock / 1000000000)).prog A.platform.toPlatform) w.store with
      ⟨e | a, s⟩
    · rw [hr] at h
      obtain ⟨he, rfl⟩ := h
      exact ⟨⟨_, rfl⟩, _, .refused e, he, rfl⟩
    · rw [hr] at h
      exact ⟨_, s, h, rfl⟩

section Calls

variable {P : Platform} {s s' : EngineStore}

theorem taskOf_updateTask {t : String} {f : TaskRow → TaskRow} (hf : ∀ row, (f row).taskId = row.taskId) :
    (s.updateTask t f).taskOf t = (s.taskOf t).map f := Table.find_update_self hf

/-- What an append does: the event is added to the log of the task. -/
structure Appended (P : Platform) (s : EngineStore) (t kind : String) (s' : EngineStore) : Prop where
  step : StoreStep P s s'
  log : ∃ row, row.eventKind = kind ∧ s'.eventsOf t = s.eventsOf t ++ [row]
  maxSeq : s'.maxSeq t = s.maxSeq t + 1
  effects : s'.effects = s.effects

/-- What a checkpoint does: the task takes on a phase. -/
structure Accepted (P : Platform) (s : EngineStore) (t phase : String) (s' : EngineStore) : Prop where
  step : StoreStep P s s'
  events : s'.events = s.events
  effects : s'.effects = s.effects
  phase : ∃ row, s'.taskOf t = some row ∧ row.phase = phase

/-- What a begin does: it adds a row of the effect, if any. -/
structure Begun (P : Platform) (s : EngineStore) (id : String) (s' : EngineStore) : Prop where
  step : StoreStep P s s'
  events : s'.events = s.events
  rows : ∀ row ∈ s'.effects, row ∈ s.effects ∨ row.effectId = id

/-- What a completion does: the effect is no longer pending. -/
structure Completed (P : Platform) (s : EngineStore) (id : String) (s' : EngineStore) : Prop where
  step : StoreStep P s s'
  events : s'.events = s.events
  rows : ∀ row ∈ s'.effects, row.status = "pending" → row ∈ s.effects ∧ row.effectId ≠ id

/-- An append at a number that is not below the next one of the task is at the next
one, unless it fails; and at the next one it does not fail over the number. -/
theorem appendCall_spec (hlog : LogOK w.store) (hle : w.store.maxSeq w.run.taskId < w.run.seq)
    (event : AgentEvent) :
    Triple (· = w) (A.storeCall fun now => .appendEvent now (w.run.eventInput event))
      (fun _ w' => ∃ now s, (w.run.seq = w.store.maxSeq w.run.taskId + 1 ∧
          Appended A.platform.toPlatform w.store w.run.taskId event.kind s) ∧
        w' = w.answered (.appendEvent now (w.run.eventInput event)) .ok s)
      (fun e w' => (∃ text, e = .store text) ∧ ∃ now answer,
        answer.Fails (fun e => e.isSequence = true → w.run.seq ≠ w.store.maxSeq w.run.taskId + 1) ∧
        w' = w.answered (.appendEvent now (w.run.eventInput event)) answer w.store) := by
  refine triple_storeCall fun now => triple_bind (appendEvent_spec now _) fun inserted => ?_
  refine triple_pure ?_
  rintro s h
  cases inserted with
  | false =>
    -- a replay is of a number in use
    obtain ⟨-, row, hrow, -⟩ := h
    obtain ⟨hmem, ht, hseq⟩ := hlog.eventAt_iff.1 hrow
    have hused : row.seq ∈ w.store.seqs w.run.taskId :=
      List.mem_map_of_mem (by simpa [EngineStore.eventsOf] using ⟨hmem, ht⟩)
    have := ((hlog.numbered _).mem_iff.1 hused).2
    have hmax := hlog.maxSeq w.run.taskId
    have hseq : row.seq = w.run.seq := hseq
    omega
  | true =>
    obtain ⟨⟨htask, hid⟩, ⟨-, hseq⟩, hfresh, hhas, rfl⟩ := h
    have hstep : StoreStep A.platform.toPlatform w.store _ :=
      .append now (w.run.eventInput event) htask hid hseq hfresh hhas
    refine ⟨hseq, hstep, ⟨_, rfl, eventsOf_addEvent_self _⟩, ?_, rfl⟩
    have hself : (w.store.addEvent ((w.run.eventInput event).row now)).eventsOf w.run.taskId
        = w.store.eventsOf w.run.taskId ++ [(w.run.eventInput event).row now] :=
      eventsOf_addEvent_self _
    rw [(hlog.step hstep).maxSeq, hlog.maxSeq, EngineStore.seqs, EngineStore.seqs, hself]
    simp

/-- A checkpoint at the last event of a task does not fail over the number. -/
theorem checkpointCall_spec (hlog : LogOK w.store) (heq : w.store.maxSeq w.run.taskId = w.run.seq) :
    Triple (· = w) (A.storeCall fun now => .putCheckpoint now w.run.checkpointInput)
      (fun _ w' => ∃ now s,
        Accepted A.platform.toPlatform w.store w.run.taskId w.run.phase.asStr s ∧
        w' = w.answered (.putCheckpoint now w.run.checkpointInput) .ok s)
      (fun e w' => (∃ text, e = .store text) ∧ ∃ now answer,
        answer.Fails (fun e => e.isSequence = false) ∧
        w' = w.answered (.putCheckpoint now w.run.checkpointInput) answer w.store) := by
  have htask : w.run.checkpointInput.taskId = w.run.taskId := rfl
  have hseq : w.run.checkpointInput.acceptedSeq = w.run.seq := rfl
  have hphase : w.run.checkpointInput.phase = w.run.phase.asStr := rfl
  -- what the checkpoint holds besides does not matter
  generalize w.run.checkpointInput = input at htask hseq hphase
  refine triple_storeCall fun now => (putCheckpoint_spec now input).conseq (fun _ h => h) ?_ ?_
  · rintro _ s ⟨row, hrow, hle, hmax, rfl⟩
    refine ⟨.accept now input row hrow hle hmax, rfl, rfl, row.accept now input, ?_, hphase⟩
    have hafter := taskOf_updateTask (s := w.store) (t := input.taskId)
      (f := (·.accept now input)) fun _ => rfl
    rw [hrow, htask] at hafter
    rw [htask]
    exact hafter
  · rintro e s ⟨he, rfl⟩
    refine ⟨?_, rfl⟩
    by_contra hne
    obtain ⟨row, hrow, hbad⟩ := he (by simpa using hne)
    have hrange := hlog.accepted row (Table.mem_of_find hrow)
    have hid : row.taskId = input.taskId := Table.key_of_find hrow
    rw [hid] at hrange
    rw [htask] at hrange hbad
    omega

theorem beginCall_spec (input : BeginEffect) :
    Triple (· = w) (A.storeCall fun now => .beginEffect now input)
      (fun _ w' => ∃ now s, Begun A.platform.toPlatform w.store input.effectId s ∧
        w' = w.answered (.beginEffect now input) .ok s)
      (fun e w' => (∃ text, e = .store text) ∧ ∃ now answer,
        answer.Fails (fun e => e.isSequence = false) ∧
        w' = w.answered (.beginEffect now input) answer w.store) := by
  refine triple_storeCall fun now => triple_bind ((beginEffect_spec now input).conseq
    (fun _ h => h) (fun _ _ h => h) fun _ _ h => ⟨h.1.1, h.2⟩) fun inserted => ?_
  refine triple_pure ?_
  rintro s ⟨hvalid, h⟩
  cases inserted with
  | false =>
    obtain ⟨rfl, -⟩ := h
    exact ⟨.same (SameLog.refl _), rfl, fun _ => .inl⟩
  | true =>
    obtain ⟨hnone, hhas, rfl⟩ := h
    refine ⟨.begin now input hvalid hnone hhas, rfl, fun row hrow => ?_⟩
    rcases List.mem_append.1 hrow with hold | hnew
    · exact .inl hold
    · exact .inr (List.mem_singleton.1 hnew ▸ rfl)

theorem completeCall_spec (heff : EffectsOK w.store) (input : CompleteEffect) :
    Triple (· = w) (A.storeCall fun now => .completeEffect now input)
      (fun _ w' => ∃ now s, Completed A.platform.toPlatform w.store input.effectId s ∧
        w' = w.answered (.completeEffect now input) .ok s)
      (fun e w' => (∃ text, e = .store text) ∧ ∃ now answer,
        answer.Fails (fun e => e.isSequence = false) ∧
        w' = w.answered (.completeEffect now input) answer w.store) := by
  refine triple_storeCall fun now => (completeEffect_spec now input).conseq (fun _ h => h) ?_
    fun _ _ h => ⟨h.1.1, h.2⟩
  rintro _ s ⟨hvalid, found, hfound, ⟨hpend, rfl⟩ | ⟨hdone, -, rfl⟩⟩
  · refine ⟨.finish now input found hvalid hfound hpend, rfl, fun row hrow hp => ?_⟩
    obtain ⟨r₀, hr₀, ⟨-, rfl⟩ | ⟨hne, rfl⟩⟩ := Table.mem_update hrow
    · exact absurd hp hvalid.status.ne_pending
    · exact ⟨hr₀, hne⟩
  · refine ⟨.same (SameLog.refl _), rfl, fun row hrow hp => ⟨hrow, fun hid => ?_⟩⟩
    -- the effect was finished before, and its id is not used twice
    have hrow' : w.store.effectOf input.effectId = some row :=
      hid ▸ Table.find_of_mem heff.effectIds hrow
    exact hdone (Option.some.inj (hfound.symm.trans hrow') ▸ hp)

end Calls

/-! ## Recording an event -/

section Recording

def RunState.next {C : Type} (r : RunState C) : RunState C := { r with seq := r.seq + 1 }

variable {C : Type} {P : Platform} {event : AgentEvent} {u u' : World C}

/-- The event is in the log and accepted, and was sent, whether or not anyone received it. -/
structure Recorded (P : Platform) (event : AgentEvent) (delivered : Bool) (u u' : World C) : Prop where
  run : u'.run = u.run.next
  inStep : u.store.maxSeq u.run.taskId = u.run.seq
  stored : ∃ s, Appended P u.store u.run.taskId event.kind s ∧
    Accepted P s u.run.taskId u.run.phase.asStr u'.store
  trace : ∃ now now', u'.trace = u.trace ++ [
    .call (.appendEvent now (u.run.next.eventInput event)) .ok,
    .call (.putCheckpoint now' u.run.next.checkpointInput) .ok, .notify event delivered]

/-- How recording an event fails. -/
inductive RecordError (P : Platform) (event : AgentEvent) (u u' : World C) : RuntimeError → Prop
  | unappended (now : ℤ) (answer : CallAnswer) (text : String) : u'.run = u.run.next →
      u'.store = u.store →
      answer.Fails (fun e => e.isSequence = true → u.store.maxSeq u.run.taskId ≠ u.run.seq) →
      u'.trace = u.trace ++ [.call (.appendEvent now (u.run.next.eventInput event)) answer] →
      RecordError P event u u' (.store text)
  | unaccepted (now now' : ℤ) (answer : CallAnswer) (text : String) : u'.run = u.run.next →
      u.store.maxSeq u.run.taskId = u.run.seq →
      Appended P u.store u.run.taskId event.kind u'.store →
      answer.Fails (fun e => e.isSequence = false) →
      u'.trace = u.trace ++ [.call (.appendEvent now (u.run.next.eventInput event)) .ok,
        .call (.putCheckpoint now' u.run.next.checkpointInput) answer] →
      RecordError P event u u' (.store text)
  | undelivered : Recorded P event false u u' → RecordError P event u u' .cancelled

end Recording

theorem notify_spec (event : AgentEvent) (w : World A.reports.Catalog) :
    Triple (· = w) (A.notify event) (fun _ w' => w' = w.advance.note (.notify event true))
      (fun e w' => e = .cancelled ∧ w' = w.advance.note (.notify event false)) := by
  rintro _ rfl
  unfold AgentRuntime.notify AgentRuntime.tick AgentRuntime.observe
  simp only [bind_assoc, pure_bind]
  rw [exec_bind_ok (exec_get _), exec_bind_ok (exec_set _ _), exec_bind_ok (exec_modify _ _),
    exec_guardOr]
  cases A.env.consumerGone _ with
  | false => rfl
  | true => exact ⟨rfl, rfl⟩

/-- **Recording an event**, in a task that is not behind its log. -/
theorem record_spec (hlog : LogOK w.store) (hle : w.store.maxSeq w.run.taskId ≤ w.run.seq)
    (event : AgentEvent) :
    Triple (· = w) (A.record event)
      (fun _ w' => Recorded A.platform.toPlatform event true w w')
      (fun e w' => RecordError A.platform.toPlatform event w w' e) := by
  unfold AgentRuntime.record AgentRuntime.modifyRun
  refine triple_modify_eq (triple_get_eq ?_)
  refine triple_bind ((appendCall_spec (w := w.mapRun RunState.next) hlog
    (show w.store.maxSeq w.run.taskId < (w.run.seq + 1 : ℕ) by omega) event).conseq
    (fun _ h => h) (fun _ _ h => h) ?_) fun _ => triple_each ?_
  · rintro e w' ⟨⟨text, rfl⟩, now, answer, hfail, rfl⟩
    refine .unappended now answer text rfl rfl ?_ rfl
    cases answer with
    | ok => exact hfail
    | fault _ => trivial
    | refused e =>
      intro hseq heq
      refine hfail hseq (?_ : ((w.run.seq + 1 : ℕ) : ℤ) = w.store.maxSeq w.run.taskId + 1)
      push_cast; omega
  · rintro _ ⟨now, s, ⟨hseq, happ⟩, rfl⟩
    have hseq : ((w.run.seq + 1 : ℕ) : ℤ) = w.store.maxSeq w.run.taskId + 1 := hseq
    have happ : Appended A.platform.toPlatform w.store w.run.taskId event.kind s := happ
    have hin : w.store.maxSeq w.run.taskId = w.run.seq := by push_cast at hseq; omega
    have hnext : s.maxSeq w.run.taskId = (w.run.seq + 1 : ℕ) := by
      rw [happ.maxSeq]; push_cast; omega
    -- the event is in the log, and the checkpoint accepts it
    refine triple_bind ((checkpointCall_spec
      (w := (w.mapRun RunState.next).answered (.appendEvent now (w.run.next.eventInput event)) .ok s)
      (hlog.step happ.step) hnext).conseq
      (fun _ h => h) (fun _ _ h => h) ?_) fun _ => triple_each ?_
    · rintro e w' ⟨⟨text, rfl⟩, now', answer, hfail, rfl⟩
      exact .unaccepted now now' answer text rfl hin happ hfail (by simp [World.mapRun])
    · rintro _ ⟨now', s', hacc, rfl⟩
      have hrec : ∀ delivered, Recorded A.platform.toPlatform event delivered w
          ((((w.mapRun RunState.next).answered (.appendEvent now (w.run.next.eventInput event)) .ok
            s).answered (.putCheckpoint now' w.run.next.checkpointInput) .ok s').advance.note
              (.notify event delivered)) :=
        fun delivered => ⟨rfl, hin, ⟨s, happ, hacc⟩, now, now',
          by simp [World.note, World.advance, World.mapRun]⟩
      refine (notify_spec event _).conseq (fun _ h => h) ?_ ?_
      · rintro _ _ rfl; exact hrec true
      · rintro _ _ ⟨rfl, rfl⟩; exact .undelivered (hrec false)

section Live

variable {C : Type} {P : Platform} {t : String} {budget : ℕ} {opened : List String} {v : View}
  {event : AgentEvent} {u u' : World C}

/-- A recorded event leaves the task running, unless it ends it. -/
theorem Recorded.running {delivered : Bool} (hrec : Recorded P event delivered u u')
    (h : Live t budget opened v u) :
    Running t opened v budget event.ends u'.run.seq u'.store u'.trace ∧
      ∃ row, u'.store.taskOf t = some row ∧ row.phase = u.run.phase.asStr := by
  obtain ⟨rfl, -, h⟩ := h
  obtain ⟨s, happ, hacc⟩ := hrec.stored
  obtain ⟨now, now', htrace⟩ := hrec.trace
  have hopen : openEffects u'.trace = openEffects u.trace := by
    rw [htrace, openEffects_append]; rfl
  have hevents : u'.store.eventsOf u.run.taskId = s.eventsOf u.run.taskId := by
    simp only [EngineStore.eventsOf, hacc.events]
  obtain ⟨row, hkind, hlog⟩ := happ.log
  refine ⟨⟨?_, ?_, ?_, ?_, ?_, ?_, h.sound⟩, hacc.phase⟩
  · exact h.kept.keep ((h.kept.log.step happ.step).step hacc.step)
      ((h.kept.effects.step happ.step).step hacc.step) (hacc.effects.trans happ.effects) hopen
  · have hmax : u'.store.maxSeq u.run.taskId = s.maxSeq u.run.taskId := by
      simp only [EngineStore.maxSeq, hevents]
    rw [hmax, happ.maxSeq, hrec.inStep, hrec.run]
    rfl
  · rw [htrace]
    exact h.served.append (by simp)
  · -- the new event is the last one
    have hall : ∀ e ∈ u.store.eventsOf u.run.taskId, ¬ TerminalKind e.eventKind := h.shape
    cases hends : event.ends with
    | none =>
      intro e he
      rw [hevents, hlog] at he
      rcases List.mem_append.1 he with he | he
      · exact hall e he
      · rw [List.mem_singleton.1 he, hkind]; exact AgentEvent.ends_eq_none hends
    | some kind =>
      obtain ⟨hk, hterm⟩ := AgentEvent.ends_eq_some hends
      exact ⟨hterm, _, row, hevents.trans hlog, hall, hkind.trans hk⟩
  · intro hund
    rw [htrace] at hund
    rw [hopen]
    exact h.within hund.of_append
  · rw [htrace, viewOf_append _ _ rfl rfl]
    exact h.view

/-- A running task stops where its view is left alone. -/
theorem Live.stopped {e : RuntimeError} {obs : List Obs} (h : Live t budget opened v u)
    (htask : u'.run.taskId = u.run.taskId) (hfin : u'.run.finalization = u.run.finalization)
    (htrace : u'.trace = u.trace ++ obs) (hr : obs.filter Obs.isReport = [])
    (hd : obs.filter Obs.isDialogue = []) (hkept : Kept t u'.store u'.trace)
    (hle : u'.store.maxSeq t ≤ u'.run.seq) (hcause : Cause t e v u'.run.seq u'.store u'.trace) :
    Stopped t budget e u' := by
  have hview : viewOf u'.trace u'.run.finalization = v := by
    rw [htrace, hfin, h.2.1, viewOf_append _ _ hr hd]
    exact h.2.2.view
  exact ⟨htask.trans h.1, hkept, hle, hview ▸ h.2.2.sound, hview ▸ hcause⟩

/-- A failure to record an event stops the task. -/
theorem RecordError.stopped {e : RuntimeError} (herr : RecordError P event u u' e)
    (h : Live t budget opened v u)
    (hpub : event.ends = none ∨ Publishable v ∧ ∃ report ids, event = .completed report ids) :
    Stopped t budget e u' := by
  obtain ⟨rfl, -, hr⟩ := id h
  cases herr with
  | unappended now answer text hrun hstore hfail htrace =>
    have hin := hr.inStep
    have hopen : openEffects u'.trace = openEffects u.trace := by
      rw [htrace, openEffects_append]; rfl
    refine h.stopped (hrun ▸ rfl) (hrun ▸ rfl) htrace rfl rfl
      (hr.kept.keep (hstore ▸ hr.kept.log) (hstore ▸ hr.kept.effects) (hstore ▸ rfl) hopen) ?_
      (.failed u.trace _ answer htrace hr.served ?_ ⟨text, rfl⟩ (.inr ⟨now, _, rfl⟩)
        (.inl (hstore ▸ hr.shape)))
    · rw [hrun, hstore]
      show u.store.maxSeq u.run.taskId ≤ (u.run.seq + 1 : ℕ)
      push_cast; omega
    · cases answer with
      | ok => exact absurd hfail id
      | fault _ => rfl
      | refused e =>
        by_contra hseq
        exact hfail (by simpa [CallAnswer.failsOutright] using hseq) hin
  | unaccepted now now' answer text hrun hin happ hfail htrace =>
    have hopen : openEffects u'.trace = openEffects u.trace := by
      rw [htrace, openEffects_append]; cases answer <;> rfl
    have hseq : u'.store.maxSeq u.run.taskId = u'.run.seq := by
      rw [happ.maxSeq, hin, hrun]; rfl
    refine h.stopped (hrun ▸ rfl) (hrun ▸ rfl) htrace rfl rfl
      (hr.kept.keep (hr.kept.log.step happ.step) (hr.kept.effects.step happ.step) happ.effects hopen)
      hseq.le (.failed (u.trace ++ [.call _ .ok]) _ answer
        (by rw [htrace, List.append_assoc]; rfl)
        (hr.served.append (by simp)) ?_ ⟨text, rfl⟩ (.inl hseq) ?_)
    · exact hfail.failsOutright
    · refine hpub.imp (fun hends e he => ?_) And.left
      obtain ⟨row, hkind, hlog⟩ := happ.log
      rw [hlog] at he
      rcases List.mem_append.1 he with he | he
      · exact hr.shape e he
      · rw [List.mem_singleton.1 he, hkind]; exact AgentEvent.ends_eq_none hends
  | undelivered hrec =>
    obtain ⟨hrun, -⟩ := hrec.running h
    obtain ⟨now, now', htrace⟩ := hrec.trace
    refine h.stopped (hrec.run ▸ rfl) (hrec.run ▸ rfl) htrace rfl rfl hrun.kept hrun.inStep.le
      (.gaveUp hrun.served hrun.inStep (fun hund => ?_) ?_)
    · -- nobody received the event, so nothing was open
      have hlast := hund (u.trace ++ [.call _ .ok, .call _ .ok]) _ []
        (by rw [htrace, List.append_assoc]; rfl) (.undelivered event)
      rw [openEffects_append] at hlast
      rw [htrace, openEffects_append]
      exact hlast
    · refine hpub.imp (fun hends => ?_) (fun ⟨hp, report, ids, heq⟩ => ⟨hp, report, ids, ?_⟩)
      · have hshape := hrun.shape
        rwa [hends] at hshape
      · rw [htrace, heq]; simp

theorem Live.weaken (h : Live t budget opened v u) {opened' : List String} (hsub : opened ⊆ opened') :
    Live t budget opened' v u := by
  obtain ⟨ht, hfin, hr⟩ := h
  exact ⟨ht, hfin, hr.kept, hr.inStep, hr.served, hr.shape, fun hund =>
    List.Subset.trans (hr.within hund) hsub, hr.view, hr.sound⟩

/-- With nothing open, a task may leave its loop with any error. -/
theorem Live.quit (h : Live t budget [] v u) (e : RuntimeError) : Stopped t budget e u :=
  h.stopped rfl rfl (List.append_nil _).symm rfl rfl h.2.2.kept h.2.2.inStep.le
    (.gaveUp h.2.2.served h.2.2.inStep (fun hund => List.subset_nil.1 (h.2.2.within hund))
      (.inl h.2.2.shape))

/-- An observation that is not a store call, at which the ledger may change. -/
theorem Live.observed (h : Live t budget opened v u) {o : Obs} (ho : ∀ c answer, o ≠ .call c answer)
    (htask : u'.run.taskId = u.run.taskId) (hseq : u'.run.seq = u.run.seq)
    (hstore : u'.store = u.store) (htrace : u'.trace = u.trace ++ [o]) {v' : View}
    (hv : v' = { v.note o with ledger := u'.run.finalization }) (hs : Sound budget v') :
    Live t budget opened v' u' := by
  obtain ⟨ht, hfin, hr⟩ := h
  have hopen : openEffects u'.trace = openEffects u.trace := by
    rw [htrace, openEffects_append]
    cases o with
    | call c answer => exact absurd rfl (ho c answer)
    | _ => rfl
  refine ⟨htask.trans ht, hv ▸ rfl, hr.kept.keep (hstore ▸ hr.kept.log) (hstore ▸ hr.kept.effects)
    (hstore ▸ rfl) hopen, hstore ▸ hseq ▸ hr.inStep, ?_, hstore ▸ hr.shape, fun hund => ?_, ?_, hs⟩
  · rw [htrace]
    refine hr.served.append ?_
    simpa using fun c answer heq => absurd heq (ho c answer)
  · rw [htrace] at hund
    rw [hopen]
    exact hr.within hund.of_append
  · have hview := hr.view
    rw [View.ext_iff] at hview
    simp only [viewOf] at hview
    rw [htrace, hv, viewOf, List.filter_append, List.filter_append, hview.1, hview.2.1]
    rfl

theorem Live.note (h : Live t budget opened v u) {o : Obs} (ho : ∀ c answer, o ≠ .call c answer)
    (hs : Sound budget (v.note o)) : Live t budget opened (v.note o) (u.note o) := by
  refine h.observed ho ?_ ?_ ?_ ?_ (by rw [World.note, h.2.1]; rfl) hs <;> rfl

/-- Where something strikes, whatever is open stays open, and the task has disturbed
its own work. -/
theorem Live.strike (h : Live t budget opened v u) {o : Obs} (ho : o.Strikes) :
    Live t budget [] v (u.note o) := by
  have hv : v.note o = v := by cases ho <;> exact v.note_eq rfl rfl
  have hcall : ∀ c answer, o ≠ .call c answer := by rintro c answer rfl; cases ho
  obtain ⟨ht, hfin, hr⟩ := hv ▸ h.note hcall (hv.symm ▸ h.2.2.sound)
  refine ⟨ht, hfin, hr.kept, hr.inStep, hr.served, hr.shape, fun hund => ?_, hr.view, hr.sound⟩
  have hopen : openEffects (u.trace ++ [o]) = openEffects u.trace := by
    rw [openEffects_append]; cases ho <;> rfl
  rw [World.note, hopen, hund u.trace o [] rfl ho]
  exact List.Subset.refl _

/-- A store call that fails outright stops the task. -/
theorem Live.callFailed (h : Live t budget opened v u) {e : RuntimeError} (he : ∃ text, e = .store text)
    {c : StoreCall} {answer : CallAnswer} (hfail : answer.Fails fun e => e.isSequence = false) :
    Stopped t budget e (u.answered c answer u.store) := by
  have hopen : openEffects (u.trace ++ [.call c answer]) = openEffects u.trace := by
    rw [openEffects_append]
    cases answer with
    | ok => exact absurd hfail id
    | fault _ => cases c <;> rfl
    | refused _ => cases c <;> rfl
  exact h.stopped rfl rfl rfl rfl rfl
    (h.2.2.kept.keep h.2.2.kept.log h.2.2.kept.effects rfl hopen) h.2.2.inStep.le
    (.failed u.trace c answer rfl h.2.2.served hfail.failsOutright he (.inl h.2.2.inStep) (.inl h.2.2.shape))

end Live

/-! ## Steps of a running task -/

section Steps

variable {t : String} {budget : ℕ} {opened : List String} {v : View} {α : Type}

theorem tick_live : Triple (Live t budget opened v) A.tick (fun _ => Live t budget opened v)
    (Stopped t budget) := fun _ h => h

/-- A change of what the task knows, other than its id, number and ledger. -/
theorem modifyRun_live {f : RunState A.reports.Catalog → RunState A.reports.Catalog}
    (hf : ∀ r, (f r).taskId = r.taskId ∧ (f r).seq = r.seq ∧ (f r).finalization = r.finalization) :
    Triple (Live t budget opened v) (A.modifyRun f) (fun _ => Live t budget opened v)
      (Stopped t budget) := by
  intro w ⟨ht, hfin, hr⟩
  obtain ⟨htask, hseq, hledger⟩ := hf w.run
  exact ⟨htask.trans ht, hledger.trans hfin, hseq.symm ▸ hr⟩

theorem observe_live {o : Obs} (ho : ∀ c answer, o ≠ .call c answer) (hs : Sound budget (v.note o)) :
    Triple (Live t budget opened v) (A.observe o) (fun _ => Live t budget opened (v.note o))
      (Stopped t budget) := fun _ h => h.note ho hs

theorem strike_live {o : Obs} (ho : o.Strikes) :
    Triple (Live t budget opened v) (A.observe o) (fun _ => Live t budget [] v)
      (Stopped t budget) := fun _ h => h.strike ho

theorem throw_live {Q : α → World A.reports.Catalog → Prop} (e : RuntimeError) :
    Triple (Live t budget [] v) (throw e : RunM A α) Q (Stopped t budget) :=
  triple_throw fun _ h => h.quit e

theorem ensureActive_live :
    Triple (Live t budget opened v) A.ensureActive (fun _ => Live t budget opened v)
      (Stopped t budget) := by
  refine triple_bind tick_live fun now => triple_ite (fun _ => ?_) fun _ => triple_pure fun _ h => h
  exact triple_bind (strike_live .inactive) fun _ => throw_live .cancelled

theorem race_live (wait : ℕ → Option α) :
    Triple (Live t budget opened v) (A.race wait) (fun _ => Live t budget opened v)
      (Stopped t budget) :=
  triple_bind tick_live fun _ => triple_pure fun _ h => h

theorem record_live {event : AgentEvent} (hends : event.ends = none) :
    Triple (Live t budget opened v) (A.record event) (fun _ => Live t budget opened v)
      (Stopped t budget) := by
  refine triple_each fun w h => ?_
  refine (record_spec h.2.2.kept.log (h.1 ▸ h.2.2.inStep.le) event).conseq (fun _ h => h)
    (fun _ w' hrec => ?_) fun e w' herr => herr.stopped h (.inl hends)
  obtain ⟨hrun, -⟩ := hrec.running h
  exact ⟨hrec.run ▸ h.1, hrec.run ▸ h.2.1, hends ▸ hrun⟩

theorem recordAll_live {events : List AgentEvent} (hends : ∀ event ∈ events, event.ends = none) :
    Triple (Live t budget opened v) (A.recordAll events) (fun _ => Live t budget opened v)
      (Stopped t budget) := by
  induction events with
  | nil => exact triple_pure fun _ h => h
  | cons event rest ih =>
    exact triple_bind (record_live (hends event List.mem_cons_self)) fun _ =>
      ih fun e he => hends e (List.mem_cons_of_mem _ he)

/-- **Publishing a report ends the task.** -/
theorem completeRun_spec (hpub : Publishable v) (report : String) :
    Triple (Live t budget [] v) (A.completeRun report) (fun _ => Ended t budget)
      (Stopped t budget) := by
  unfold AgentRuntime.completeRun
  refine triple_each fun w h => triple_modify_eq (triple_get_eq ?_)
  have h' : Live t budget [] v (w.mapRun fun r => r.setPhase .completed) := h
  refine triple_bind ((record_spec (A := A) h'.2.2.kept.log (h'.1 ▸ h'.2.2.inStep.le) _).conseq
    (fun _ h => h) (fun _ w' hrec => ?_)
    fun e w' herr => herr.stopped h' (.inr ⟨hpub, _, _, rfl⟩)) fun _ => triple_pure fun _ h => h
  obtain ⟨hrun, row, hrow, hphase⟩ := hrec.running h'
  exact ⟨v, hrec.run ▸ h'.2.1, hpub, hrun, row, hrow, hphase⟩

theorem beginEffect_live (kind : String) (payload : Json) :
    Triple (Live t budget opened v) (A.beginEffect kind payload)
      (fun id => Live t budget (id :: opened) v) (Stopped t budget) := by
  unfold AgentRuntime.beginEffect
  refine triple_bind tick_live fun now => triple_each fun w h => triple_get_eq ?_
  refine triple_bind ((beginCall_spec _).conseq (fun _ h => h) (fun _ w' hb => ?_) ?_) fun _ =>
    triple_pure (P := Live t budget (A.env.uuid now :: opened) v) fun _ h => h
  · obtain ⟨at', s, hbegun, rfl⟩ := hb
    obtain ⟨ht, hfin, hr⟩ := h
    have hopen : ∀ input : BeginEffect, openEffects (w.trace ++ [.call (.beginEffect at' input) .ok])
        = input.effectId :: openEffects w.trace := fun input => by rw [openEffects_append]; rfl
    have hevents : s.eventsOf t = w.store.eventsOf t := by
      simp only [EngineStore.eventsOf, hbegun.events]
    refine ⟨ht, hfin, ⟨hr.kept.log.step hbegun.step, hr.kept.effects.step hbegun.step, ?_⟩, ?_,
      hr.served.append (by simp), ?_, fun hund => ?_, ?_, hr.sound⟩
    · intro row hrow hid hp
      rw [answered_trace, hopen]
      rcases hbegun.rows row hrow with hold | hnew
      · exact List.mem_cons_of_mem _ (hr.kept.pending row hold hid hp)
      · rw [hnew]; exact List.mem_cons_self
    · rw [answered_store, EngineStore.maxSeq, hevents]; exact hr.inStep
    · intro e he; exact hr.shape e (hevents ▸ he)
    · rw [answered_trace, hopen]
      exact List.cons_subset_cons _ (hr.within hund.of_append)
    · rw [answered_trace, viewOf_append _ _ rfl rfl]; exact hr.view
  · rintro e w' ⟨he, at', answer, hfail, rfl⟩
    exact h.callFailed he hfail

theorem completeEffect_live (id status : String) (result : Json) :
    Triple (Live t budget opened v) (A.completeEffect id status result)
      (fun _ => Live t budget (opened.filter (· ≠ id)) v) (Stopped t budget) := by
  refine triple_each fun w h => ?_
  refine (completeCall_spec h.2.2.kept.effects _).conseq (fun _ h => h) (fun _ w' hc => ?_) ?_
  · obtain ⟨at', s, hdone, rfl⟩ := hc
    obtain ⟨ht, hfin, hr⟩ := h
    have hopen : ∀ input : CompleteEffect, openEffects (w.trace ++ [.call (.completeEffect at' input) .ok])
        = (openEffects w.trace).filter (· ≠ input.effectId) := fun input => by
      rw [openEffects_append]; rfl
    have hevents : s.eventsOf t = w.store.eventsOf t := by
      simp only [EngineStore.eventsOf, hdone.events]
    refine ⟨ht, hfin, ⟨hr.kept.log.step hdone.step, hr.kept.effects.step hdone.step, ?_⟩, ?_,
      hr.served.append (by simp), ?_, fun hund => ?_, ?_, hr.sound⟩
    · intro row hrow hid hp
      obtain ⟨hold, hne⟩ := hdone.rows row hrow hp
      rw [answered_trace, hopen]
      simpa [hne] using hr.kept.pending row hold hid hp
    · rw [answered_store, EngineStore.maxSeq, hevents]; exact hr.inStep
    · intro e he; exact hr.shape e (hevents ▸ he)
    · rw [answered_trace, hopen]
      exact List.filter_subset _ (hr.within hund.of_append)
    · rw [answered_trace, viewOf_append _ _ rfl rfl]; exact hr.view
  · rintro e w' ⟨he, at', answer, hfail, rfl⟩
    exact h.callFailed he hfail

/-- Failing the only open effect leaves nothing open. -/
theorem failWith_live {Q : α → World A.reports.Catalog → Prop} (id message : String)
    (e : RuntimeError) :
    Triple (Live t budget [id] v) (A.failWith id message e : RunM A α) Q (Stopped t budget) := by
  refine triple_bind (completeEffect_live id "failed" _) fun _ => ?_
  simpa using throw_live e

end Steps

end Astock
