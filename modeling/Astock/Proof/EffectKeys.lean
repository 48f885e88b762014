import Astock.Proof.Endings

/-!
# The effects of a run are new

The key of an effect is made of the task, the number of the last event and the
kind of the effect, so two effects have different keys when an event is recorded
between them. `Spaced` is what a run keeps: the effects begun so far have
increasing numbers. `Ahead` is what a begin needs: an event has been recorded
since the last one.

* `executeTask_spaced`: every run is `Spaced`, however it ends.
* `rows_rowsAfter`: the rows of effects after a run are from before it, or its own.
* `runTask_intents`: **the keys of a run are distinct**, and no request to begin an
  effect meets a row of the same run.
-/

namespace Astock

open Prog

/-- The rows that the calls of a run leave; a call that fails on the way has no effect. -/
def rowsAfter (P : Platform) (s : EngineStore) (trace : List Obs) : EngineStore :=
  trace.foldl (fun s o => match o with
    | .call _ (.fault _) => s
    | .call c _ => s.after P c
    | _ => s) s

/-- What the store answers a call that reaches it. -/
def answerOf (P : Platform) (s : EngineStore) (c : StoreCall) : CallAnswer :=
  match (exec (c.prog P) s).1 with
  | .ok _ => .ok
  | .error e => .refused e

/-- The trace tells the rows and the answers: a call failed on the way, or was
answered from the rows that the calls before it left. -/
structure Logged (P : Platform) (store s : EngineStore) (trace : List Obs) : Prop where
  rows : s = rowsAfter P store trace
  answers : ∀ before c answer after, trace = before ++ .call c answer :: after →
    (∃ text, answer = .fault text) ∨ answer = answerOf P (rowsAfter P store before) c

/-- The key of an effect. -/
def effectKey (taskId : String) (seq : ℕ) (kind : String) : String := s!"{taskId}:{seq}:{kind}"

/-- The effects begun by a task, each at the number of an event of its own. -/
structure Spaced {A : AgentRuntime} (store : EngineStore) (taskId : String)
    (w : World A.reports.Catalog) : Prop where
  task : w.run.taskId = taskId
  keys : ∀ input ∈ begunEffects w.trace, ∃ seq : ℕ, input.causedBySeq = seq ∧
    input.idempotencyKey = effectKey taskId seq input.effectKind
  increasing : ((begunEffects w.trace).map (·.causedBySeq)).Pairwise (· < ·)
  behind : ∀ input ∈ begunEffects w.trace, input.causedBySeq ≤ w.run.seq
  logged : Logged A.platform.toPlatform store w.store w.trace

/-- An event has been recorded since the last effect was begun. -/
structure Ahead {A : AgentRuntime} (store : EngineStore) (taskId : String)
    (w : World A.reports.Catalog) : Prop extends Spaced store taskId w where
  ahead : ∀ input ∈ begunEffects w.trace, input.causedBySeq < w.run.seq

@[simp] theorem begunEffects_append (l l' : List Obs) :
    begunEffects (l ++ l') = begunEffects l ++ begunEffects l' := List.filterMap_append ..

theorem rowsAfter_append {P : Platform} {s : EngineStore} (l l' : List Obs) :
    rowsAfter P s (l ++ l') = rowsAfter P (rowsAfter P s l) l' := List.foldl_append ..

/-- What happens next is logged. -/
theorem Logged.note {P : Platform} {store s s' : EngineStore} {trace : List Obs} {o : Obs}
    (h : Logged P store s trace) (hs : s' = rowsAfter P s [o])
    (ho : ∀ c answer, o = .call c answer → (∃ text, answer = .fault text) ∨ answer = answerOf P s c) :
    Logged P store s' (trace ++ [o]) := by
  refine ⟨?_, fun before c answer after heq => ?_⟩
  · rw [rowsAfter_append, ← h.rows, hs]
  · rcases List.eq_nil_or_concat after with rfl | ⟨rest, last, rfl⟩
    · -- the call is what was noted
      obtain ⟨rfl, hlast⟩ := List.append_inj' heq rfl
      rw [← h.rows]
      exact ho c answer (List.singleton_inj.1 hlast)
    · refine h.answers before c answer rest ?_
      rw [List.concat_eq_append, ← List.cons_append, ← List.append_assoc] at heq
      exact (List.append_inj' heq rfl).1

/-! ## Steps that begin nothing -/

section Quiet

variable {A : AgentRuntime} {store : EngineStore} {t : String} {α β : Type}

/-- No effect is begun and no event is recorded. -/
structure Quiet {A : AgentRuntime} (store : EngineStore) (w w' : World A.reports.Catalog) : Prop where
  task : w'.run.taskId = w.run.taskId
  seq : w'.run.seq = w.run.seq
  begun : begunEffects w'.trace = begunEffects w.trace
  logged : Logged A.platform.toPlatform store w.store w.trace →
    Logged A.platform.toPlatform store w'.store w'.trace

theorem Quiet.refl (w : World A.reports.Catalog) : Quiet store w w := ⟨rfl, rfl, rfl, id⟩

theorem Quiet.trans (w w' w'' : World A.reports.Catalog) (h : Quiet store w w')
    (h' : Quiet store w' w'') : Quiet store w w'' :=
  ⟨h'.task.trans h.task, h'.seq.trans h.seq, h'.begun.trans h.begun, h'.logged ∘ h.logged⟩

theorem Quiet.spaced {w w' : World A.reports.Catalog} (h : Quiet store w w') (hs : Spaced store t w) :
    Spaced store t w' where
  task := h.task.trans hs.task
  keys := by rw [h.begun]; exact hs.keys
  increasing := by rw [h.begun]; exact hs.increasing
  behind := by rw [h.begun, h.seq]; exact hs.behind
  logged := h.logged hs.logged

theorem Quiet.ahead {w w' : World A.reports.Catalog} (h : Quiet store w w') (hs : Ahead store t w) :
    Ahead store t w' :=
  ⟨h.spaced hs.toSpaced, by rw [h.begun, h.seq]; exact hs.ahead⟩

/-- A program that keeps the effects of a run apart, whichever exit it takes. -/
abbrev KeepsApart (store : EngineStore) (t : String) (x : RunM A α) : Prop :=
  Triple (Spaced store t) x (fun _ => Spaced store t) (fun _ => Spaced store t)

theorem keeps_quiet {x : RunM A α} (h : Steps (Quiet store) x) : KeepsApart store t x :=
  triple_each fun w hw => (h.triple w).conseq (fun _ hs => hs) (fun _ _ hq => hq.spaced hw)
    fun _ _ hq => hq.spaced hw

theorem ahead_quiet {x : RunM A α} (h : Steps (Quiet store) x) :
    Triple (Ahead store t) x (fun _ => Ahead store t) (fun _ => Spaced store t) :=
  triple_each fun w hw => (h.triple w).conseq (fun _ hs => hs) (fun _ _ hq => hq.ahead hw)
    fun _ _ hq => (hq.ahead hw).toSpaced

theorem quiet_pure (a : α) : Steps (Quiet store) (pure a : RunM A α) := steps_pure Quiet.refl a

theorem quiet_throw (e : RuntimeError) : Steps (Quiet store) (throw e : RunM A α) :=
  steps_throw Quiet.refl e

theorem quiet_bind {x : RunM A α} {f : α → RunM A β} (hx : Steps (Quiet store) x)
    (hf : ∀ a, Steps (Quiet store) (f a)) : Steps (Quiet store) (x >>= f) :=
  steps_bind Quiet.trans hx hf

theorem quiet_tick : Steps (Quiet store) A.tick := fun _ => ⟨rfl, rfl, rfl, id⟩

theorem quiet_modifyRun {f : RunState A.reports.Catalog → RunState A.reports.Catalog}
    (hf : ∀ r, (f r).taskId = r.taskId ∧ (f r).seq = r.seq) : Steps (Quiet store) (A.modifyRun f) :=
  fun w => ⟨(hf w.run).1, (hf w.run).2, rfl, id⟩

theorem quiet_observe {o : Obs} (ho : ∀ c answer, o ≠ .call c answer) :
    Steps (Quiet store) (A.observe o) := by
  have hbegun : begunEffects [o] = [] := by
    cases o with
    | call c answer => exact absurd rfl (ho c answer)
    | _ => rfl
  have hrows : ∀ P s, rowsAfter P s [o] = s := by
    cases o with
    | call c answer => exact absurd rfl (ho c answer)
    | _ => exact fun _ _ => rfl
  intro w
  refine ⟨rfl, rfl, ?_, fun hw => hw.note ?_ fun c answer heq => absurd heq (ho c answer)⟩
  · show begunEffects (w.trace ++ [o]) = _
    rw [begunEffects_append, hbegun, List.append_nil]
  · exact (hrows _ _).symm

/-- A served call is logged. -/
theorem Logged.served {w : World A.reports.Catalog}
    (hw : Logged A.platform.toPlatform store w.store w.trace) (c : StoreCall) :
    Logged A.platform.toPlatform store (A.served w c).store (A.served w c).trace := by
  have hserve : (∃ text, A.serve w c = (.fault text, w.store)) ∨
      A.serve w c = (answerOf A.platform.toPlatform w.store c, w.store.after A.platform.toPlatform c) := by
    unfold AgentRuntime.serve
    split
    · exact .inl ⟨_, rfl⟩
    · right
      unfold answerOf EngineStore.after
      rcases exec (c.prog A.platform.toPlatform) w.store with ⟨e | a, s⟩
      · rfl
      · rfl
  show Logged _ store (A.serve w c).2 (w.trace ++ [.call c (A.serve w c).1])
  refine hw.note ?_ ?_
  · rcases hserve with ⟨text, h⟩ | h
    · rw [h]; rfl
    · rw [h]
      unfold answerOf
      rcases (exec (c.prog A.platform.toPlatform) w.store).1 with e | a
      · rfl
      · rfl
  · intro c' answer heq
    obtain ⟨rfl, rfl⟩ := Obs.call.inj heq
    rcases hserve with ⟨text, h⟩ | h
    · exact .inl ⟨text, by rw [h]⟩
    · exact .inr (by rw [h])

/-- A store call ends in the world it is served in. -/
theorem storeCall_world (c : ℤ → StoreCall) (w : World A.reports.Catalog) :
    (exec (A.storeCall c) w).2 = A.served w (c (A.env.now w.clock / 1000000000)) := by
  unfold AgentRuntime.storeCall
  rw [exec_bind_ok (exec_get w), exec_bind_ok (exec_set _ _)]
  split <;> rfl

theorem triple_storeCall_world {c : ℤ → StoreCall} {w : World A.reports.Catalog}
    {Q : World A.reports.Catalog → Prop} (h : ∀ now, Q (A.served w (c now))) :
    Triple (· = w) (A.storeCall c) (fun _ => Q) (fun _ => Q) := by
  intro u hu
  subst hu
  have hworld : Q (exec (A.storeCall c) u).2 := storeCall_world c u ▸ h _
  rcases hr : exec (A.storeCall c) u with ⟨e | a, u'⟩
  · rw [hr] at hworld; exact hworld
  · rw [hr] at hworld; exact hworld

theorem quiet_storeCall {c : ℤ → StoreCall} (hc : ∀ now at' input, c now ≠ .beginEffect at' input) :
    Steps (Quiet store) (A.storeCall c) := by
  intro w
  rw [storeCall_world]
  set now := A.env.now w.clock / 1000000000
  refine ⟨rfl, rfl, ?_, fun hw => hw.served (c now)⟩
  show begunEffects (w.trace ++ [.call (c now) _]) = _
  rw [begunEffects_append]
  cases hcall : c now with
  | beginEffect at' input => exact absurd hcall (hc now at' input)
  | _ => exact List.append_nil _

theorem quiet_ensureActive : Steps (Quiet store) A.ensureActive := by
  unfold AgentRuntime.ensureActive
  refine quiet_bind quiet_tick fun now => ?_
  split
  · exact quiet_bind (quiet_observe (by simp)) fun _ => quiet_throw _
  · exact quiet_pure _

theorem quiet_race (wait : ℕ → Option α) : Steps (Quiet store) (A.race wait) :=
  quiet_bind quiet_tick fun _ => quiet_pure _

theorem quiet_notify (event : AgentEvent) : Steps (Quiet store) (A.notify event) :=
  quiet_bind quiet_tick fun _ => quiet_bind (quiet_observe (by simp)) fun _ =>
    steps_guardOr Quiet.refl _ _

theorem quiet_completeEffect (effectId status : String) (result : Json) :
    Steps (Quiet store) (A.completeEffect effectId status result) :=
  quiet_storeCall (by simp)

theorem quiet_failWith (effectId message : String) (error : RuntimeError) :
    Steps (Quiet store) (A.failWith effectId message error : RunM A α) :=
  quiet_bind (quiet_completeEffect _ _ _) fun _ => quiet_throw _

theorem quiet_recordRejection (fingerprint : String) :
    Steps (Quiet store) (A.recordRejection fingerprint) :=
  steps_get fun _ => quiet_bind (quiet_modifyRun fun _ => ⟨rfl, rfl⟩) fun _ =>
    quiet_bind (quiet_observe (by simp)) fun _ => quiet_pure _

end Quiet

/-! ## Events and effects -/

section Loud

variable {A : AgentRuntime} {store : EngineStore} {t : String} {α β : Type}

/-- **Recording an event** puts it between the effects before and after. -/
theorem ahead_record (event : AgentEvent) :
    Triple (Spaced store t) (A.record event) (fun _ => Ahead store t) (fun _ => Spaced store t) := by
  unfold AgentRuntime.record
  refine triple_bind (Q := fun _ => Ahead store t) ?_ fun _ => triple_read fun _ => ?_
  · intro w hw
    have hstep : ∀ input ∈ begunEffects w.trace, input.causedBySeq < (w.run.seq + 1 : ℕ) := by
      intro input hmem
      have := hw.behind input hmem
      push_cast
      omega
    exact ⟨⟨hw.task, hw.keys, hw.increasing, fun input hmem => (hstep input hmem).le,
      hw.logged⟩, hstep⟩
  · refine triple_bind (ahead_quiet (quiet_storeCall (by simp))) fun _ => ?_
    refine triple_bind (ahead_quiet (quiet_storeCall (by simp))) fun _ => ?_
    exact ahead_quiet (quiet_notify event)

theorem keeps_record (event : AgentEvent) : KeepsApart store t (A.record event) :=
  (ahead_record event).conseq (fun _ h => h) (fun _ _ h => h.toSpaced) fun _ _ h => h

theorem keeps_recordAll (events : List AgentEvent) : KeepsApart store t (A.recordAll events) := by
  induction events with
  | nil => exact triple_pure fun _ h => h
  | cons event rest ih => exact triple_bind (keeps_record event) fun _ => ih

/-- The request to begin an effect, at a number that no effect has. -/
theorem Ahead.served {w : World A.reports.Catalog} (hw : Ahead store t w) {input : BeginEffect}
    (hseq : input.causedBySeq = w.run.seq)
    (hkey : input.idempotencyKey = effectKey w.run.taskId w.run.seq input.effectKind) (now : ℤ) :
    Spaced store t (A.served w (.beginEffect now input)) := by
  have hbegun : begunEffects (A.served w (.beginEffect now input)).trace
      = begunEffects w.trace ++ [input] := begunEffects_append _ _
  refine ⟨hw.task, ?_, ?_, ?_, hw.logged.served _⟩
  · rw [hbegun]
    intro other hmem
    rcases List.mem_append.1 hmem with hold | hnew
    · exact hw.keys other hold
    · obtain rfl := List.mem_singleton.1 hnew
      exact ⟨w.run.seq, hseq, hw.task ▸ hkey⟩
  · rw [hbegun, List.map_append, List.pairwise_append]
    refine ⟨hw.increasing, List.pairwise_singleton _ _, fun q hq q' hq' => ?_⟩
    obtain ⟨other, hmem, rfl⟩ := List.mem_map.1 hq
    rw [List.map_singleton, List.mem_singleton] at hq'
    rw [hq', hseq]
    exact hw.ahead other hmem
  · rw [hbegun]
    intro other hmem
    rcases List.mem_append.1 hmem with hold | hnew
    · exact hw.behind other hold
    · obtain rfl := List.mem_singleton.1 hnew
      exact hseq.le

/-- **Beginning an effect**, once an event has been recorded since the last one. -/
theorem keeps_beginEffect (kind : String) (payload : Json) :
    Triple (Ahead store t) (A.beginEffect kind payload) (fun _ => Spaced store t)
      (fun _ => Spaced store t) := by
  unfold AgentRuntime.beginEffect
  refine triple_bind (ahead_quiet quiet_tick) fun now => triple_each fun w hw => triple_get_eq ?_
  refine triple_bind (Q := fun _ => Spaced store t) ?_ fun _ => triple_pure fun _ h => h
  exact triple_storeCall_world fun at' => hw.served rfl rfl at'

/-- An event is recorded and an effect begun, in this order. -/
theorem keeps_record_then {event : AgentEvent} {f : Unit → RunM A β}
    (hf : Triple (Ahead store t) (f ()) (fun _ => Spaced store t) fun _ => Spaced store t) :
    KeepsApart store t (A.record event >>= f) :=
  triple_bind (ahead_record event) fun _ => hf

theorem keeps_pure (a : α) : KeepsApart store t (pure a : RunM A α) := triple_pure fun _ h => h

theorem keeps_throw (e : RuntimeError) : KeepsApart store t (throw e : RunM A α) :=
  triple_throw fun _ h => h

theorem keeps_bind {x : RunM A α} {f : α → RunM A β} (hx : KeepsApart store t x)
    (hf : ∀ a, KeepsApart store t (f a)) : KeepsApart store t (x >>= f) :=
  triple_bind hx hf

theorem keeps_modifyRun {f : RunState A.reports.Catalog → RunState A.reports.Catalog}
    (hf : ∀ r, (f r).taskId = r.taskId ∧ (f r).seq = r.seq) : KeepsApart store t (A.modifyRun f) :=
  keeps_quiet (quiet_modifyRun hf)

/-! ## The parts of a run -/

theorem keeps_refuseCall (call : ModelToolCall) (message : String) :
    KeepsApart store t (A.refuseCall call message) :=
  keeps_bind (keeps_record _) fun _ => keeps_pure _

theorem keeps_prepareCall (call : ModelToolCall) : KeepsApart store t (A.prepareCall call) := by
  unfold AgentRuntime.prepareCall
  split
  · unfold AgentRuntime.refuseUnknown
    refine keeps_bind (keeps_modifyRun fun _ => ⟨rfl, rfl⟩) fun _ => triple_read fun w => ?_
    split
    · exact keeps_bind (keeps_quiet (quiet_observe (by simp))) fun _ => keeps_throw _
    · exact keeps_refuseCall call _
  · split
    · exact keeps_refuseCall call _
    · unfold AgentRuntime.scheduleCall
      refine keeps_record_then ?_
      refine triple_bind (keeps_beginEffect _ _) fun _ => ?_
      exact keeps_bind (keeps_record _) fun _ => keeps_pure _

theorem keeps_prepareAll (calls : List ModelToolCall) : KeepsApart store t (A.prepareAll calls) := by
  induction calls with
  | nil => exact keeps_pure _
  | cons call rest ih =>
    refine keeps_bind (keeps_prepareCall call) fun p => keeps_bind ih fun others => ?_
    cases p with
    | rejected completed => exact keeps_pure _
    | prepared tool => exact keeps_pure _

theorem keeps_failExecution (tool : PreparedTool) (message : String) (retryable : Bool) :
    KeepsApart store t (A.failExecution tool message retryable) :=
  keeps_bind (keeps_quiet (quiet_completeEffect _ _ _)) fun _ =>
    keeps_bind (keeps_record _) fun _ => keeps_pure _

theorem keeps_settleExecution (task : RuntimeTask) (tool : PreparedTool)
    (result : Option (Except String Json)) :
    KeepsApart store t (A.settleExecution task tool result) := by
  unfold AgentRuntime.settleExecution
  split
  · split
    · exact keeps_failExecution tool _ _
    · unfold AgentRuntime.succeedExecution AgentRuntime.recordEvidence
      refine keeps_bind (keeps_quiet (quiet_completeEffect _ _ _)) fun _ => ?_
      refine keeps_bind (keeps_modifyRun fun _ => ⟨rfl, rfl⟩) fun _ => ?_
      refine keeps_bind (keeps_record _) fun _ => keeps_bind ?_ fun _ => ?_
      · split
        · exact keeps_pure _
        · exact keeps_record _
      · exact keeps_bind (keeps_modifyRun fun _ => ⟨rfl, rfl⟩) fun _ => keeps_pure _
  · exact keeps_failExecution tool _ _
  · exact keeps_failExecution tool _ _

theorem keeps_executeAll (task : RuntimeTask) (n : ℕ) (tools : List PreparedTool) :
    KeepsApart store t (A.executeAll task n tools) := by
  induction n generalizing tools with
  | zero => exact keeps_pure _
  | succ n ih =>
    cases tools with
    | nil => exact keeps_pure _
    | cons first rest =>
      refine keeps_bind (keeps_quiet quiet_tick) fun now => ?_
      refine keeps_bind (keeps_quiet quiet_ensureActive) fun _ => ?_
      refine keeps_bind (keeps_settleExecution task _ _) fun completed => ?_
      exact keeps_bind (ih _) fun others => keeps_pure _

theorem keeps_completeRun (report : String) : KeepsApart store t (A.completeRun report) :=
  keeps_bind (keeps_modifyRun fun _ => ⟨rfl, rfl⟩) fun _ => triple_read fun _ =>
    keeps_bind (keeps_record _) fun _ => keeps_pure _

/-- **A report is verified** after the start of its verification is recorded. -/
theorem keeps_verifyDraft (task : RuntimeTask) (draft : A.reports.Draft)
    (rendered : A.reports.Rendered) : KeepsApart store t (A.verifyDraft task draft rendered) := by
  unfold AgentRuntime.verifyDraft AgentRuntime.verifyCanonicalReport
  refine keeps_bind (keeps_modifyRun fun _ => ⟨rfl, rfl⟩) fun _ => keeps_record_then ?_
  refine triple_bind (Q := fun _ => Spaced store t) ?_ fun verification => ?_
  · refine triple_read fun w => triple_bind (ahead_quiet ?_) fun spec => ?_
    · exact quiet_bind quiet_tick fun _ => quiet_pure _
    refine triple_bind (keeps_beginEffect _ _) fun effectId => ?_
    refine keeps_bind (keeps_quiet quiet_tick) fun now => ?_
    have hgiveUp : ∀ message reason,
        KeepsApart store t (A.giveUpVerification effectId message reason : RunM A Json) :=
      fun message reason => keeps_quiet <| quiet_bind (quiet_completeEffect _ _ _) fun _ =>
        quiet_bind (quiet_observe (by simp)) fun _ => quiet_throw _
    split
    · exact keeps_bind (keeps_quiet (quiet_completeEffect _ _ _)) fun _ => keeps_pure _
    · exact hgiveUp _ _
    · exact hgiveUp _ _
  · split
    · exact keeps_pure _
    · exact keeps_bind (keeps_recordAll _) fun _ =>
        keeps_bind (keeps_quiet (quiet_recordRejection _)) fun _ => keeps_pure _

theorem keeps_finalizeReport (task : RuntimeTask) (arguments : Json) :
    KeepsApart store t (A.finalizeReport task arguments) := by
  unfold AgentRuntime.finalizeReport
  refine triple_read fun w => keeps_bind (keeps_quiet (quiet_observe (by simp))) fun _ => ?_
  split
  · exact keeps_bind (keeps_quiet (quiet_recordRejection _)) fun _ => triple_read fun _ => keeps_pure _
  · refine keeps_bind (keeps_quiet (quiet_observe (by simp))) fun _ => triple_ite (fun _ => ?_) fun _ => ?_
    · exact keeps_bind (keeps_quiet (quiet_recordRejection _)) fun _ =>
        keeps_bind (keeps_recordAll _) fun _ => triple_read fun _ => keeps_pure _
    · exact keeps_verifyDraft task _ _

theorem keeps_submitReport (task : RuntimeTask) (tool : PreparedTool) :
    KeepsApart store t (A.submitReport task tool) := by
  have hrefuse : ∀ result message retryable response exhausted,
      KeepsApart store t (A.refuseReport tool result message retryable response exhausted) :=
    fun _ _ _ _ _ => keeps_bind (keeps_quiet (quiet_completeEffect _ _ _)) fun _ =>
      keeps_bind (keeps_record _) fun _ => keeps_pure _
  unfold AgentRuntime.submitReport
  refine keeps_bind (keeps_finalizeReport task _) fun outcome => ?_
  split
  · unfold AgentRuntime.publish
    refine keeps_bind (keeps_quiet (quiet_completeEffect _ _ _)) fun _ => ?_
    refine keeps_bind (keeps_quiet (quiet_observe (by simp))) fun _ => ?_
    refine keeps_bind (keeps_record _) fun _ => ?_
    exact keeps_bind (keeps_completeRun _) fun _ => keeps_pure _
  · exact hrefuse _ _ _ _ _
  · exact hrefuse _ _ _ _ _

theorem keeps_serveAll (task : RuntimeTask) (tools : List PreparedTool) :
    ∀ exhausted, KeepsApart store t (A.serveAll task exhausted tools) := by
  induction tools with
  | nil => exact fun _ => keeps_pure _
  | cons tool rest ih =>
    intro exhausted
    unfold AgentRuntime.serveAll
    refine keeps_bind (keeps_quiet quiet_ensureActive) fun _ => ?_
    split
    · refine keeps_bind (triple_read fun _ => ?_) fun _ => keeps_bind (ih _) fun _ => keeps_pure _
      exact keeps_bind (keeps_quiet (quiet_completeEffect _ _ _)) fun _ =>
        keeps_bind (keeps_record _) fun _ => keeps_pure _
    split
    · refine keeps_bind (keeps_submitReport task tool) fun submitted => ?_
      split
      · exact keeps_pure _
      · exact keeps_bind (ih _) fun _ => keeps_pure _
    · exact keeps_bind (keeps_quiet (quiet_observe (by simp))) fun _ => keeps_throw _

theorem keeps_executeTools (task : RuntimeTask) (calls : List ModelToolCall) :
    KeepsApart store t (A.executeTools task calls) := by
  unfold AgentRuntime.executeTools
  refine keeps_bind (keeps_prepareAll calls) fun prepared => ?_
  refine keeps_bind (keeps_executeAll task _ _) fun executed => ?_
  exact keeps_bind (keeps_serveAll task _ _) fun _ => keeps_pure _

/-! ## Turns -/

theorem quiet_failMalformedStream (effectId message : String) :
    Steps (Quiet store) (A.failMalformedStream effectId message : RunM A α) :=
  quiet_failWith _ _ _

theorem quiet_nextChunk (effectId : String) : Steps (Quiet store) (A.nextChunk effectId) := by
  unfold AgentRuntime.nextChunk
  refine quiet_bind quiet_ensureActive fun _ => quiet_bind (quiet_race _) fun next => ?_
  split
  · exact quiet_failWith _ _ _
  · exact quiet_failWith _ _ _
  · exact quiet_pure _
  · exact quiet_failWith _ _ _
  · exact quiet_pure _

theorem keeps_absorb (effectId : String) (acc : TurnAcc) (chunk : ModelChunk) :
    KeepsApart store t (A.absorb effectId acc chunk) := by
  cases chunk with
  | textDelta delta =>
    show KeepsApart store t (A.absorbText effectId acc delta)
    unfold AgentRuntime.absorbText
    refine triple_ite (fun _ => keeps_pure _) fun _ => triple_ite (fun _ => ?_) fun _ => ?_
    · exact keeps_quiet (quiet_failMalformedStream _ _)
    · exact keeps_bind (keeps_record _) fun _ => keeps_pure _
  | toolCallDelta index id name arguments =>
    show KeepsApart store t (A.absorbCall effectId acc index id name arguments)
    unfold AgentRuntime.absorbCall
    refine triple_ite (fun _ => keeps_quiet (quiet_failMalformedStream _ _)) fun _ => ?_
    split
    · exact keeps_quiet (quiet_failMalformedStream _ _)
    · refine triple_ite (fun _ => ?_) fun _ => keeps_pure _
      exact keeps_quiet (quiet_failMalformedStream _ _)
  | finished reason => exact keeps_pure _

theorem keeps_readStream (effectId : String) (left : ℕ) (acc : TurnAcc) :
    KeepsApart store t (A.readStream effectId left acc) := by
  induction left generalizing acc with
  | zero =>
    refine keeps_bind (keeps_quiet (quiet_nextChunk effectId)) fun chunk => ?_
    split
    · exact keeps_pure _
    · exact keeps_quiet (quiet_failMalformedStream _ _)
  | succ left ih =>
    refine keeps_bind (keeps_quiet (quiet_nextChunk effectId)) fun chunk => ?_
    split
    · exact keeps_pure _
    · exact keeps_bind (keeps_absorb effectId acc _) fun acc => ih acc

theorem quiet_connect (effectId : String) (request : ModelRequest) :
    Steps (Quiet store) (A.connect effectId request) := by
  unfold AgentRuntime.connect
  refine quiet_bind (quiet_race _) fun connection => ?_
  split
  · exact quiet_failWith _ _ _
  · exact quiet_failWith _ _ _
  · exact quiet_failWith _ _ _
  · exact quiet_pure _

theorem quiet_closeTurn (effectId : String) (acc : TurnAcc) :
    Steps (Quiet store) (A.closeTurn effectId acc) := by
  unfold AgentRuntime.closeTurn
  split
  · exact quiet_failWith _ _ _
  · split
    · exact quiet_bind (quiet_completeEffect _ _ _) fun _ => quiet_pure _
    · exact quiet_bind (quiet_completeEffect _ _ _) fun _ => quiet_pure _

/-- One attempt begins one effect. -/
theorem keeps_attemptTurn (model : String) (round : ℕ) (tools : List ToolDefinition)
    (messages : List Message) :
    Triple (Ahead store t) (A.attemptTurn model round tools messages) (fun _ => Spaced store t)
      (fun _ => Spaced store t) := by
  unfold AgentRuntime.attemptTurn
  refine triple_bind (ahead_quiet (quiet_observe (by simp))) fun _ => ?_
  refine triple_bind (keeps_beginEffect _ _) fun effectId => ?_
  refine keeps_bind (keeps_quiet (quiet_connect _ _)) fun _ => ?_
  exact keeps_bind (keeps_readStream _ _ _) fun acc => keeps_quiet (quiet_closeTurn _ _)

/-- **Replays of a turn are apart**: each empty turn is recorded before the next attempt. -/
theorem keeps_takeTurn (model : String) (round : ℕ) (tools : List ToolDefinition) (left : ℕ)
    (messages : List Message) :
    Triple (Ahead store t) (A.takeTurn model round tools left messages) (fun _ => Spaced store t)
      (fun _ => Spaced store t) := by
  induction left generalizing messages with
  | zero =>
    refine triple_bind (keeps_attemptTurn model round tools messages) fun turn => ?_
    split
    · exact keeps_pure _
    · exact keeps_bind (keeps_record _) fun _ => keeps_throw _
  | succ left ih =>
    refine triple_bind (keeps_attemptTurn model round tools messages) fun turn => ?_
    split
    · exact keeps_pure _
    · exact keeps_record_then (ih _)

/-! ## Rounds and runs -/

theorem keeps_modelRound (task : RuntimeTask) (model : String) (round : ℕ) (messages : List Message) :
    KeepsApart store t (A.modelRound task model round messages) := by
  unfold AgentRuntime.modelRound AgentRuntime.startRound
  refine triple_bind (Q := fun _ => Ahead store t) ?_ fun _ => ?_
  · refine triple_bind (keeps_quiet quiet_ensureActive) fun _ => ?_
    exact triple_bind (keeps_modifyRun fun _ => ⟨rfl, rfl⟩) fun _ => ahead_record _
  refine triple_bind (keeps_takeTurn model round _ _ messages) fun turn => ?_
  refine triple_ite (fun _ => ?_) fun _ => ?_
  · unfold AgentRuntime.proseRound
    refine triple_ite (fun _ => ?_) fun _ => ?_
    · exact keeps_bind (keeps_completeRun _) fun _ => keeps_pure _
    · refine keeps_bind (keeps_quiet (quiet_recordRejection _)) fun verdict => ?_
      refine triple_ite (fun _ => keeps_throw _) fun _ => ?_
      exact keeps_bind (keeps_modifyRun fun _ => ⟨rfl, rfl⟩) fun _ => keeps_pure _
  · unfold AgentRuntime.toolRound
    refine keeps_bind (keeps_modifyRun fun _ => ⟨rfl, rfl⟩) fun _ => ?_
    refine keeps_bind (keeps_quiet (quiet_observe (by simp))) fun _ => ?_
    refine keeps_bind (keeps_executeTools task _) fun batch => ?_
    split
    · exact keeps_pure _
    · exact keeps_throw _
    · exact keeps_pure _

theorem keeps_rounds (task : RuntimeTask) (model : String) (left : ℕ) (messages : List Message) :
    KeepsApart store t (A.rounds task model left messages) := by
  induction left generalizing messages with
  | zero => exact keeps_throw _
  | succ left ih =>
    refine keeps_bind (keeps_modelRound task model _ messages) fun result => ?_
    split
    · exact keeps_pure _
    · exact ih _

theorem keeps_selectModel :
    Triple (Ahead store t) A.selectModel (fun _ => Spaced store t) (fun _ => Spaced store t) := by
  unfold AgentRuntime.selectModel
  refine triple_bind (keeps_beginEffect _ _) fun effectId => ?_
  refine keeps_bind (keeps_quiet (quiet_race _)) fun selection => keeps_quiet ?_
  split
  · exact quiet_failWith _ _ _
  · exact quiet_failWith _ _ _
  · exact quiet_failWith _ _ _
  · exact quiet_bind (quiet_completeEffect _ _ _) fun _ => quiet_pure _

theorem keeps_executeLoop (task : RuntimeTask) : KeepsApart store t (A.executeLoop task) := by
  unfold AgentRuntime.executeLoop AgentRuntime.startPlanning
  refine triple_bind (Q := fun _ => Ahead store t) ?_ fun _ => ?_
  · refine triple_read fun w => triple_bind (keeps_record _) fun _ => ?_
    refine triple_bind (keeps_record _) fun _ => ?_
    refine triple_bind (keeps_modifyRun fun _ => ⟨rfl, rfl⟩) fun _ => ?_
    exact triple_bind (keeps_record _) fun _ => ahead_record _
  · exact triple_bind keeps_selectModel fun model => keeps_rounds task model _ _

theorem keeps_recordTerminal (error : RuntimeError) :
    KeepsApart store t (A.recordTerminal error) := by
  unfold AgentRuntime.recordTerminal
  refine keeps_bind (keeps_quiet quiet_tick) fun now => ?_
  split
  · exact keeps_throw _
  · rename_i event _
    refine keeps_bind (keeps_modifyRun fun _ => ⟨rfl, rfl⟩) fun _ => ?_
    refine triple_bind (Q := fun _ => Spaced store t) ?_ fun _ => keeps_pure _
    refine (triple_attempt (keeps_record event)).conseq (fun _ h => h) (fun r w h => ?_) fun _ _ h => h
    cases r with
    | ok _ => exact h
    | error _ => exact h

/-- **A run keeps its effects apart**, however it ends. -/
theorem executeTask_spaced (task : RuntimeTask) (taskId : String) :
    KeepsApart store t (A.executeTask taskId task) := by
  unfold AgentRuntime.executeTask
  split
  · exact keeps_throw _
  refine keeps_bind (keeps_quiet (quiet_storeCall (by simp))) fun _ => ?_
  refine triple_bind (Q := fun _ => Spaced store t) ?_ fun result => ?_
  · refine (triple_attempt (keeps_executeLoop task)).conseq (fun _ h => h) (fun r w h => ?_)
      fun _ _ h => h
    cases r with
    | ok _ => exact h
    | error _ => exact h
  · cases result with
    | ok outcome => exact keeps_pure _
    | error error => exact keeps_bind (keeps_recordTerminal error) fun _ => keeps_throw _

end Loud

/-! ## Keys -/

/-- The number of the event can be read off a key. -/
theorem effectKey_inj {t k k' : String} {q q' : ℕ} (h : effectKey t q k = effectKey t q' k') :
    q = q' := by
  have hcolon : ∀ n : ℕ, ':' ∉ Nat.toDigits 10 n := by
    intro n hmem
    have hdigit := Nat.isDigit_of_mem_toDigits (by decide) (by decide) hmem
    exact absurd hdigit (by decide)
  have hkey : ∀ (q : ℕ) (k : String), (effectKey t q k).toList
      = (t.toList ++ [':']) ++ (Nat.toDigits 10 q ++ ':' :: k.toList) := by
    intro q k
    show (t ++ ":" ++ Nat.repr q ++ ":" ++ k).toList = _
    simp [String.toList_append, Nat.toList_repr]
  have hlist := congrArg String.toList h
  rw [hkey, hkey, List.append_cancel_left_eq] at hlist
  exact Text.toDigits_inj (Text.cut_inj (hcolon q) (hcolon q') hlist).1

/-- **Effects at different events have different keys.** -/
theorem Spaced.keys_nodup {A : AgentRuntime} {store : EngineStore} {t : String}
    {w : World A.reports.Catalog} (h : Spaced store t w) :
    ((begunEffects w.trace).map (·.idempotencyKey)).Nodup := by
  have hincreasing := List.pairwise_map.1 h.increasing
  refine List.pairwise_map.2 (hincreasing.imp_of_mem fun {a b} ha hb hlt heq => ?_)
  obtain ⟨q, hq, hkey⟩ := h.keys a ha
  obtain ⟨q', hq', hkey'⟩ := h.keys b hb
  have hsame : q = q' := effectKey_inj ((hkey.symm.trans heq).trans hkey')
  rw [hq, hq', hsame] at hlt
  exact lt_irrefl _ hlt

/-! ## Rows -/

section Rows

variable {P : Platform} {s : EngineStore}

/-- The row is that of an effect among the given ones. -/
def RowOf (P : Platform) (begun : List BeginEffect) (row : EffectRow) : Prop :=
  ∃ input ∈ begun, row.effectId = input.effectId ∧
    row.idempotencyKey = idempotencyDigest P input.idempotencyKey

/-- The id and the key of the row are those of a row of the store. -/
def StoredIn (s : EngineStore) (row : EffectRow) : Prop :=
  ∃ r ∈ s.effects, r.effectId = row.effectId ∧ r.idempotencyKey = row.idempotencyKey

theorem StoredIn.of_mem {row : EffectRow} (h : row ∈ s.effects) : StoredIn s row := ⟨row, h, rfl, rfl⟩

/-- Every row of `s'` has the id and the key of a row of `s`. -/
def NoneAdded (s s' : EngineStore) : Prop := ∀ row ∈ s'.effects, StoredIn s row

theorem NoneAdded.of_eq {s' : EngineStore} (h : s'.effects = s.effects) : NoneAdded s s' :=
  fun _ hrow => .of_mem (h ▸ hrow)

/-- Only `begin_effect` adds effects. -/
theorem noneAdded_prog (c : StoreCall) (hc : ∀ now input, c ≠ .beginEffect now input) :
    Triple (· = s) (c.prog P) (fun _ s' => NoneAdded s s') (fun _ s' => NoneAdded s s') := by
  have drop : ∀ {α : Type} {x : Sql α} {Q : α → EngineStore → Prop} {E : StoreError → EngineStore → Prop},
      Triple (· = s) x Q E → (∀ a s', Q a s' → s'.effects = s.effects) →
      (∀ e s', E e s' → s'.effects = s.effects) →
      Triple (· = s) (do let _ ← x) (fun _ s' => NoneAdded s s') (fun _ s' => NoneAdded s s') :=
    fun h hQ hE => triple_bind (h.conseq (fun _ h => h) (fun a s' h => NoneAdded.of_eq (hQ a s' h))
      fun e s' h => NoneAdded.of_eq (hE e s' h)) fun _ => triple_pure fun _ h => h
  cases c with
  | beginEffect now input => exact absurd rfl (hc now input)
  | createTask now input =>
    refine drop (createTask_spec now input) ?_ fun _ _ h => h ▸ rfl
    rintro (_ | _) s' h
    · exact h.2 ▸ rfl
    · obtain ⟨-, -, rfl⟩ := h; rfl
  | appendEvent now input =>
    refine drop (appendEvent_spec now input) ?_ fun _ _ h => h.2 ▸ rfl
    rintro (_ | _) s' h
    · exact h.1 ▸ rfl
    · obtain ⟨-, -, -, -, rfl⟩ := h; rfl
  | putCheckpoint now input =>
    refine (putCheckpoint_spec now input).conseq (fun _ h => h) ?_ fun _ _ h => .of_eq (h.2 ▸ rfl)
    rintro _ s' ⟨_, _, _, _, rfl⟩
    exact .of_eq rfl
  | completeEffect now input =>
    refine (completeEffect_spec now input).conseq (fun _ h => h) ?_ fun _ _ h => .of_eq (h.2 ▸ rfl)
    rintro _ s' ⟨-, found, -, ⟨-, rfl⟩ | ⟨-, -, rfl⟩⟩
    · -- the effect is finished in place
      intro row hrow
      obtain ⟨r₀, hr₀, ⟨-, rfl⟩ | ⟨-, rfl⟩⟩ := Table.mem_update hrow
      · exact ⟨r₀, hr₀, rfl, rfl⟩
      · exact .of_mem hr₀
    · exact .of_eq rfl
  | saveConversation now input =>
    exact drop (saveConversation_sameLog input) (fun _ _ h => h.2.2) fun _ _ h => h.2.2
  | renameConversation now input =>
    exact drop (renameConversation_sameLog input) (fun _ _ h => h.2.2) fun _ _ h => h.2.2
  | deleteConversation now conversationId =>
    exact drop (deleteConversation_sameLog conversationId) (fun _ _ h => h.2.2) fun _ _ h => h.2.2
  | branchConversation now input =>
    refine drop (branchConversation_spec input) ?_ fun _ _ h => h ▸ rfl
    rintro _ s' ⟨_, _, _, _, rfl, _⟩
    rfl

/-- A call adds at most the row of the effect it begins. -/
theorem rows_after (c : StoreCall) (answer : CallAnswer) {row : EffectRow}
    (h : row ∈ (s.after P c).effects) :
    StoredIn s row ∨ RowOf P (begunEffects [.call c answer]) row := by
  by_cases hbegin : ∃ now input, c = .beginEffect now input
  · obtain ⟨now, input, rfl⟩ := hbegin
    have hspec : Triple (· = s) ((StoreCall.beginEffect now input).prog P)
        (fun _ s' => s' = s ∨ s' = s.addEffect (input.row now (idempotencyDigest P input.idempotencyKey)))
        (fun _ s' => s' = s) := by
      refine triple_bind ((beginEffect_spec now input).conseq (fun _ h => h) ?_ fun _ _ h => h.2)
        fun _ => triple_pure fun _ h => h
      rintro (_ | _) s' ⟨-, h⟩
      · exact .inl h.1
      · exact .inr h.2.2
    unfold EngineStore.after at h
    have hcase := (hspec.conseq (fun _ h => h) (fun _ _ h => h) fun _ _ h => .inl h).state rfl
    rcases hcase with hsame | hadded
    · rw [hsame] at h
      exact .inl (.of_mem h)
    · rw [hadded] at h
      rcases List.mem_append.1 h with hold | hnew
      · exact .inl (.of_mem hold)
      · obtain rfl := List.mem_singleton.1 hnew
        exact .inr ⟨input, List.mem_singleton_self _, rfl, rfl⟩
  · left
    push Not at hbegin
    exact (noneAdded_prog c hbegin).state rfl row h

/-- **The rows of a run** were stored before it, or are those of its own effects. -/
theorem rows_rowsAfter (trace : List Obs) {row : EffectRow}
    (h : row ∈ (rowsAfter P s trace).effects) : StoredIn s row ∨ RowOf P (begunEffects trace) row := by
  induction trace using List.reverseRecOn generalizing row with
  | nil => exact .inl (.of_mem h)
  | append_singleton trace o ih =>
    rw [rowsAfter_append] at h
    have hlast : StoredIn (rowsAfter P s trace) row ∨ RowOf P (begunEffects [o]) row := by
      cases o with
      | call c answer =>
        cases answer with
        | fault text => exact .inl (.of_mem h)
        | _ => exact rows_after c _ h
      | _ => exact .inl (.of_mem h)
    rw [begunEffects_append]
    rcases hlast with ⟨r, hr, hid, hkey⟩ | ⟨input, hmem, hrow⟩
    · rcases ih hr with ⟨r', hr', hid', hkey'⟩ | ⟨input, hmem, hid', hkey'⟩
      · exact .inl ⟨r', hr', hid'.trans hid, hkey'.trans hkey⟩
      · exact .inr ⟨input, List.mem_append_left _ hmem, hid.symm.trans hid', hkey.symm.trans hkey'⟩
    · exact .inr ⟨input, List.mem_append_right _ hmem, hrow⟩

/-- An effect is refused as a conflict only over a row it finds. -/
theorem beginEffect_conflict (now : ℤ) (input : BeginEffect) :
    Triple (· = s) (beginEffect P now input) (fun _ _ => True)
      (fun e _ => e = .effectIdentityConflict → ∃ row, input.found P s = some row) := by
  unfold beginEffect normalizeIdempotencyKey
  refine triple_validateIdentity (fun _ => ?_) fun _ he => by simp at he
  refine triple_validateIdentity (fun _ => ?_) fun _ he => by simp at he
  refine triple_validateIdentity (fun _ => ?_) fun _ he => by simp at he
  rw [bind_assoc]
  refine triple_guardOr (fun _ => ?_) fun _ _ _ he => by simp at he
  rw [pure_bind]
  refine triple_guardOr (fun _ => ?_) fun _ _ _ he => by simp at he
  refine triple_guardOr (fun _ => ?_) fun _ _ _ he => by simp at he
  refine (triple_atomically (Q := fun _ _ => True) (F := fun e => e = .effectIdentityConflict →
    ∃ row, input.found P s = some row) (triple_get_eq ?_)).conseq (fun _ h => h) (fun _ _ h => h)
      fun _ _ h => h.1
  split
  · rename_i row hrow
    exact triple_ite (fun _ => triple_pure fun _ _ => trivial) fun _ =>
      triple_throw fun _ _ _ => ⟨row, hrow⟩
  · refine triple_guardOr (fun _ => ?_) fun _ _ _ he => by simp at he
    exact fun _ _ => trivial

end Rows

/-! ## Every effect is a new intent -/

/-- The effect ids of a run are distinct, and no two of its keys have the same digest. -/
structure DistinctEffects (P : Platform) (trace : List Obs) : Prop where
  effectIds : ((begunEffects trace).map (·.effectId)).Nodup
  digests : ∀ a ∈ begunEffects trace, ∀ b ∈ begunEffects trace,
    idempotencyDigest P a.idempotencyKey = idempotencyDigest P b.idempotencyKey →
      a.idempotencyKey = b.idempotencyKey

/-- Nothing is stored under the id or the key of the effect. -/
def Unused (P : Platform) (store : EngineStore) (input : BeginEffect) : Prop :=
  ∀ row ∈ store.effects, row.effectId ≠ input.effectId ∧
    row.idempotencyKey ≠ idempotencyDigest P input.idempotencyKey

/-- A request on the rows `s` of a run from `store` meets no effect of that run: it
finds rows from before the run only, and where there is none, it is neither answered
as a replay nor refused as a conflict. -/
structure NewIntent (P : Platform) (store s : EngineStore) (now : ℤ) (input : BeginEffect)
    (answer : CallAnswer) : Prop where
  found : ∀ row, input.found P s = some row → StoredIn store row
  notReplayed : Unused P store input → (exec (beginEffect P now input) s).1 ≠ .ok false
  notRefused : Unused P store input → answer ≠ .refused .effectIdentityConflict

/-- Every request of a run to begin an effect is a new intent. -/
def NewIntents (P : Platform) (store : EngineStore) (trace : List Obs) : Prop :=
  ∀ before now input answer after, trace = before ++ .call (.beginEffect now input) answer :: after →
    NewIntent P store (rowsAfter P store before) now input answer

/-- The rows a request finds are from before the run. -/
theorem found_storedIn {P : Platform} {store : EngineStore} {before after : List BeginEffect}
    {input : BeginEffect} {row : EffectRow}
    (hids : ((before ++ input :: after).map (·.effectId)).Nodup)
    (hkeys : ((before ++ input :: after).map (·.idempotencyKey)).Nodup)
    (hdigests : ∀ a ∈ before, idempotencyDigest P a.idempotencyKey
      = idempotencyDigest P input.idempotencyKey → a.idempotencyKey = input.idempotencyKey)
    (hrow : StoredIn store row ∨ RowOf P before row)
    (hmatch : row.effectId = input.effectId ∨
      row.idempotencyKey = idempotencyDigest P input.idempotencyKey) : StoredIn store row := by
  have happart : ∀ {f : BeginEffect → String}, ((before ++ input :: after).map f).Nodup →
      ∀ a ∈ before, f a ≠ f input := by
    intro f hd a ha
    rw [List.map_append, List.nodup_append] at hd
    exact hd.2.2 (f a) (List.mem_map_of_mem ha) (f input) (by simp)
  rcases hrow with hstored | ⟨other, hmem, hid, hkey⟩
  · exact hstored
  · rcases hmatch with hid' | hkey'
    · exact absurd (hid.symm.trans hid') (happart hids other hmem)
    · exact absurd (hdigests other hmem (hkey.symm.trans hkey')) (happart hkeys other hmem)

/-- **Every effect of a run is a new intent.** -/
theorem runTask_intents (A : AgentRuntime) (store : EngineStore) (taskId : String)
    (task : RuntimeTask) :
    ((begunEffects (A.runTask store taskId task).2.trace).map (·.idempotencyKey)).Nodup ∧
      (DistinctEffects A.platform.toPlatform (A.runTask store taskId task).2.trace →
        NewIntents A.platform.toPlatform store (A.runTask store taskId task).2.trace) := by
  have hstart : Spaced store taskId (A.start store taskId) :=
    ⟨rfl, fun input h => by simp [AgentRuntime.start, begunEffects] at h, List.Pairwise.nil,
      fun input h => by simp [AgentRuntime.start, begunEffects] at h,
      rfl, fun before c answer after h => by simp [AgentRuntime.start] at h⟩
  have hrun : Spaced store taskId (A.runTask store taskId task).2 :=
    (executeTask_spaced task taskId).state hstart
  generalize A.runTask store taskId task = p at hrun
  refine ⟨hrun.keys_nodup, fun hdistinct before now input answer after htrace => ?_⟩
  have hkeys := hrun.keys_nodup
  have hbegun : begunEffects p.2.trace = begunEffects before ++ input :: begunEffects after := by
    rw [htrace, begunEffects_append]
    rfl
  obtain ⟨hids, hdigests⟩ := hdistinct
  rw [hbegun] at hids hdigests hkeys
  set s := rowsAfter A.platform.toPlatform store before with hs
  have hfound : ∀ row, input.found A.platform.toPlatform s = some row → StoredIn store row := by
    intro row hrow
    obtain ⟨hmem, hmatch⟩ := found_mem hrow
    exact found_storedIn hids hkeys (fun a ha => hdigests a (by simp [ha]) input (by simp))
      (rows_rowsAfter before hmem) hmatch
  -- so where nothing was stored before, nothing is found
  have hnone : Unused A.platform.toPlatform store input → ∀ row, input.found A.platform.toPlatform s ≠ some row := by
    intro hunused row hrow
    obtain ⟨r, hr, hid, hkey⟩ := hfound row hrow
    rcases (found_mem hrow).2 with hid' | hkey'
    · exact (hunused r hr).1 (hid.trans hid')
    · exact (hunused r hr).2 (hkey.trans hkey')
  refine ⟨hfound, fun hunused hreplay => ?_, fun hunused hrefused => ?_⟩
  · obtain ⟨-, -, row, hrow, -⟩ := (beginEffect_spec now input).ok rfl (Prod.ext hreplay rfl)
    exact hnone hunused row hrow
  · rcases hrun.logged.answers before _ answer after htrace with ⟨text, hfault⟩ | hanswer
    · rw [hfault] at hrefused; simp at hrefused
    rw [hrefused] at hanswer
    have hspec : Triple (· = s) ((StoreCall.beginEffect now input).prog A.platform.toPlatform)
        (fun _ _ => True) (fun e _ => e = .effectIdentityConflict →
          ∃ row, input.found A.platform.toPlatform s = some row) :=
      triple_bind (beginEffect_conflict now input) fun _ => triple_pure fun _ _ => trivial
    unfold answerOf at hanswer
    rw [← hs] at hanswer
    rcases hr : exec ((StoreCall.beginEffect now input).prog A.platform.toPlatform) s with ⟨e | a, s'⟩
    · rw [hr] at hanswer
      have he : e = .effectIdentityConflict := (CallAnswer.refused.inj hanswer).symm
      obtain ⟨row, hrow⟩ := hspec.error rfl hr he
      exact hnone hunused row hrow
    · rw [hr] at hanswer; simp at hanswer

/-- A run that publishes a report begins effects that are all new. -/
theorem published_intents :
    ((begunEffects (published.runTask {} "task-1" sampleTask).2.trace).map (·.idempotencyKey)).Nodup ∧
      NewIntents published.platform.toPlatform {} (published.runTask {} "task-1" sampleTask).2.trace := by
  refine ⟨(runTask_intents published {} "task-1" sampleTask).1,
    (runTask_intents published {} "task-1" sampleTask).2 ⟨published_smooth.2.2.2, ?_⟩⟩
  exact fun a _ b _ h => Text.append_left_inj h

end Astock
