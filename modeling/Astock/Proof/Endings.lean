import Astock.Proof.Publication

/-!
# How a run ends

* `terminalLast_of_delivered`: **a terminal event is the last one**, in every run in
  which the store serves every call and no `Completed` event is lost on its way to
  the consumer. `lostCompletion_cancelled` is a run in which one is.
* `noneOutlives_of_undisturbed`: **no effect outlives its task**, in every such run in
  which nothing strikes while an effect is open. `cancelledStream_pending` is a run in
  which something does.
* `terminalAccepted_of_recoverable`: **the log can be finished** after one store call
  has failed, unless it was an append, or the checkpoint of the end itself.
  `lostAppend_unfinished` is a run in which an append failed.
-/

namespace Astock

open Prog

variable {A : AgentRuntime} {t : String} {store : EngineStore} {task : RuntimeTask}
  {result : Except RuntimeError RunOutcome} {w : World A.reports.Catalog}

/-- A terminal event that was recorded ends the log, and is the phase of the task. -/
theorem Closing.recorded {C : Type} {P : Platform} {event : AgentEvent} {phase : AgentPhase}
    {delivered : Bool} {w₀ u w : World C} (hclosing : Closing w₀ u event phase)
    (hrec : Recorded P event delivered u w) :
    ∃ last row, w.store.eventsOf w₀.run.taskId = w₀.store.eventsOf w₀.run.taskId ++ [last] ∧
      last.eventKind = phase.asStr ∧ TerminalKind phase.asStr ∧
      w.store.taskOf w₀.run.taskId = some row ∧ row.phase = phase.asStr := by
  obtain ⟨s, happ, hacc⟩ := hrec.stored
  obtain ⟨last, hlast, hlog⟩ := happ.log
  obtain ⟨row, hrow, hphase⟩ := hacc.phase
  have hends : event.ends = some phase.asStr := by rw [AgentEvent.ends, hclosing.terminal]; rfl
  obtain ⟨hkind, hterm⟩ := AgentEvent.ends_eq_some hends
  rw [hclosing.taskId] at hrow hlog
  rw [hclosing.store] at hlog
  refine ⟨last, row, ?_, hlast.trans hkind, hterm, hrow, ?_⟩
  · rw [← hlog, EngineStore.eventsOf, hacc.events]; rfl
  · rw [hphase, hclosing.inPhase]

/-- A stopped task whose store calls were all served gave up. -/
theorem Halted.gaveUp {budget seq : ℕ} {e : RuntimeError} {v : View} {store : EngineStore}
    {trace : List Obs} (h : Halted t budget e v seq store trace) (hserved : Served trace) :
    store.maxSeq t = seq ∧ (Undisturbed trace → openEffects trace = []) ∧
      (Unfinished t store ∨ ∃ report ids, .notify (.completed report ids) false ∈ trace) := by
  cases h.cause with
  | gaveUp _ hin hopen hlog => exact ⟨hin, hopen, hlog.imp id And.right⟩
  | failed before c answer htrace _ hout _ _ _ =>
    have hok := hserved c answer (by rw [htrace]; simp)
    rw [hok] at hout
    simp [CallAnswer.failsOutright] at hout

theorem Served.of_append {trace obs : List Obs} (h : Served (trace ++ obs)) : Served trace :=
  fun c answer hmem => h c answer (List.mem_append_left _ hmem)

/-- A task in step with its log records its end, when no call fails outright. -/
theorem RecordError.undelivered_of_served {C : Type} {P : Platform} {event : AgentEvent}
    {e : RuntimeError} {u w : World C} {obs : List Obs} (herr : RecordError P event u w e)
    (hin : u.store.maxSeq u.run.taskId = u.run.seq) (htrace : w.trace = u.trace ++ obs)
    (hreg : ∀ c answer, .call c answer ∈ obs → answer.failsOutright = false) :
    Recorded P event false u w := by
  cases herr with
  | unappended now answer text _ _ hfail htrace' =>
    obtain rfl := List.append_cancel_left (htrace.symm.trans htrace')
    have hreg := hreg _ answer List.mem_cons_self
    cases answer with
    | ok => exact absurd hfail id
    | fault _ => simp [CallAnswer.failsOutright] at hreg
    | refused e => exact absurd hin (hfail (by simpa [CallAnswer.failsOutright] using hreg))
  | unaccepted now now' answer text _ _ _ hfail htrace' =>
    obtain rfl := List.append_cancel_left (htrace.symm.trans htrace')
    have hreg := hreg _ answer (List.mem_cons_of_mem _ List.mem_cons_self)
    rw [hfail.failsOutright] at hreg
    simp at hreg
  | undelivered hrec => exact hrec

/-- Every `Completed` event was received. -/
def Delivered (trace : List Obs) : Prop :=
  ∀ report ids, .notify (.completed report ids) false ∉ trace

def Obs.isLostCompletion : Obs → Bool
  | .notify (.completed _ _) false => true
  | _ => false

instance (trace : List Obs) : Decidable (Delivered trace) :=
  decidable_of_iff (∀ o ∈ trace, o.isLostCompletion = false)
    ⟨fun h _ _ hmem => by simpa [Obs.isLostCompletion] using h _ hmem, fun h o hmem => by
      by_contra hlost
      unfold Obs.isLostCompletion at hlost
      split at hlost
      · exact h _ _ hmem
      · simp at hlost⟩

/-! ## The terminal event -/

/-- A terminal event, if there is one, is the last event of the task and its phase. -/
def TerminalLast (t : String) (s : EngineStore) : Prop :=
  Unfinished t s ∨ ∃ before last row, s.eventsOf t = before ++ [last] ∧
    (∀ e ∈ before, ¬ TerminalKind e.eventKind) ∧ TerminalKind last.eventKind ∧
    s.taskOf t = some row ∧ row.phase = last.eventKind

/-- Only the last event may be a terminal one. -/
theorem TerminalLast.dropLast {s : EngineStore} (h : TerminalLast t s) :
    ∀ e ∈ (s.eventsOf t).dropLast, ¬ TerminalKind e.eventKind := by
  intro e he
  rcases h with hun | ⟨before, last, row, hlog, hbefore, -⟩
  · exact hun e (List.mem_of_mem_dropLast he)
  · rw [hlog, List.dropLast_concat] at he
    exact hbefore e he

theorem unfinished_new (h : EngineStore.Reachable A.platform.toPlatform store)
    (hnew : store.hasTask t = false) (hstart : w = A.start store t ∨ Unstarted store w) :
    Unfinished t w.store := by
  have hstore : w.store = store := by
    rcases hstart with rfl | ⟨hstore, -⟩
    · rfl
    · exact hstore
  intro e he
  rw [hstore, eventsOf_new h hnew] at he
  simp at he

/-- **A terminal state is absorbing** in every run in which every store call is served and
every `Completed` event is received. -/
theorem terminalLast_of_delivered (A : AgentRuntime) (store : EngineStore)
    (h : EngineStore.Reachable A.platform.toPlatform store) (taskId : String)
    (hnew : store.hasTask taskId = false) (task : RuntimeTask)
    (hserved : Served (A.runTask store taskId task).2.trace)
    (hdelivered : Delivered (A.runTask store taskId task).2.trace) :
    TerminalLast taskId (A.runTask store taskId task).2.store := by
  generalize hrun : A.runTask store taskId task = p at hserved hdelivered ⊢
  obtain ⟨result, w⟩ := p
  rcases runTask_cases h hnew task hrun with ⟨_, -, hstart⟩ | ⟨_, -, v, -, -, hr, row, hrow, hphase⟩ |
    ⟨e, e', w₀, -, ⟨rfl, hhalt⟩, hclosed⟩
  · exact .inl (unfinished_new h hnew hstart)
  · obtain ⟨hterm, before, last, hlog, hbefore, hkind⟩ := hr.shape
    exact .inr ⟨before, last, row, hlog, hbefore, hkind ▸ hterm, hrow, hphase.trans hkind.symm⟩
  obtain ⟨⟨obs, htrace, -⟩, -⟩ := hclosed.frame
  rw [show (result, w).2.trace = w₀.trace ++ obs from htrace] at hserved hdelivered
  obtain ⟨hin, -, hun | ⟨report, ids, hlost⟩⟩ := hhalt.gaveUp hserved.of_append
  swap
  · exact absurd (List.mem_append_left _ hlost) (hdelivered report ids)
  have hrecorded : ∀ {event phase u delivered}, Closing w₀ u event phase →
      Recorded A.platform.toPlatform event delivered u w → TerminalLast w₀.run.taskId w.store := by
    intro event phase u delivered hclosing hrec
    obtain ⟨last, row, hlog, hkind, hterm, hrow, hphase⟩ := hclosing.recorded hrec
    exact .inr ⟨_, last, row, hlog, hun, hkind ▸ hterm, hrow, hphase.trans hkind.symm⟩
  cases hclosed with
  | silent _ hw => subst hw; exact .inl hun
  | recorded event phase u hclosing hrec => exact hrecorded hclosing hrec
  | failed event phase u e' hclosing herr =>
    refine hrecorded hclosing (herr.undelivered_of_served ?_ (hclosing.trace ▸ htrace) fun c answer hmem => ?_)
    · rw [hclosing.store, hclosing.taskId, hclosing.seq]; exact hin
    · rw [hserved c answer (List.mem_append_right _ hmem)]; rfl

/-- A batch of one submission, of a draft that passes. -/
def goodSubmission : List (ℕ × ModelChunk) := [(25, submitChunk 0 "call-1" sampleDraft.toText)]

/-- A run that publishes a report. -/
def published : AgentRuntime := sampleRuntime (sampleEnv goodSubmission) {}

/-- The effects that a run asks the store to begin, in order. -/
def begunEffects (trace : List Obs) : List BeginEffect :=
  trace.filterMap fun
    | .call (.beginEffect _ input) _ => some input
    | _ => none

/-- One evaluation of the run serves all that is read off its trace. -/
theorem published_smooth :
    Served (published.runTask {} "task-1" sampleTask).2.trace ∧
      Delivered (published.runTask {} "task-1" sampleTask).2.trace ∧
      Undisturbed (published.runTask {} "task-1" sampleTask).2.trace ∧
      ((begunEffects (published.runTask {} "task-1" sampleTask).2.trace).map (·.effectId)).Nodup := by
  decide +kernel

theorem published_terminalLast :
    TerminalLast "task-1" (published.runTask {} "task-1" sampleTask).2.store :=
  terminalLast_of_delivered published {} ⟨[], rfl⟩ "task-1" rfl sampleTask published_smooth.1
    published_smooth.2.1

/-- The consumer goes away when the `Completed` event of a published report is sent. -/
def lostCompletion : AgentRuntime :=
  sampleRuntime { sampleEnv goodSubmission with consumerGoneAt := some 52 } {}

/-- **A completed task is recorded as cancelled**, when nobody receives its completion. -/
theorem lostCompletion_cancelled :
    ¬ ∀ (A : AgentRuntime) (store : EngineStore),
      EngineStore.Reachable A.platform.toPlatform store → ∀ taskId, store.hasTask taskId = false →
        ∀ task, Served (A.runTask store taskId task).2.trace →
          TerminalLast taskId (A.runTask store taskId task).2.store := by
  intro h
  have hrun : Served (lostCompletion.runTask {} "task-1" sampleTask).2.trace ∧
      ∃ e ∈ ((lostCompletion.runTask {} "task-1" sampleTask).2.store.eventsOf "task-1").dropLast,
        e.eventKind = "completed" := by decide +kernel
  obtain ⟨hserved, e, he, hkind⟩ := hrun
  have hlast := h lostCompletion {} ⟨[], rfl⟩ "task-1" rfl sampleTask hserved
  refine hlast.dropLast e he ?_
  rw [hkind]
  simp [TerminalKind]

/-! ## Effects -/

/-- No effect of the task is pending. -/
def NoneOutlives (t : String) (s : EngineStore) : Prop :=
  ∀ row ∈ s.effects, row.taskId = t → row.status ≠ "pending"

/-- **No effect outlives its task** in every run in which every store call is served and
nothing strikes while an effect is open. -/
theorem noneOutlives_of_undisturbed (A : AgentRuntime) (store : EngineStore)
    (h : EngineStore.Reachable A.platform.toPlatform store) (taskId : String)
    (hnew : store.hasTask taskId = false) (task : RuntimeTask)
    (hserved : Served (A.runTask store taskId task).2.trace)
    (hund : Undisturbed (A.runTask store taskId task).2.trace) :
    NoneOutlives taskId (A.runTask store taskId task).2.store := by
  generalize hrun : A.runTask store taskId task = p at hserved hund ⊢
  obtain ⟨result, w⟩ := p
  intro row hrow ht hp
  rcases runTask_cases h hnew task hrun with ⟨_, -, hstart⟩ | ⟨_, -, v, -, -, hr, -⟩ |
    ⟨e, e', w₀, -, ⟨rfl, hhalt⟩, hclosed⟩
  · have hstore : w.store = store := by
      rcases hstart with rfl | ⟨hstore, -⟩
      · rfl
      · exact hstore
    have hhas := (reachable_rooted h).effects row (hstore ▸ hrow)
    rw [ht, hnew] at hhas
    simp at hhas
  · exact absurd (hr.within hund (hr.kept.pending row hrow ht hp)) (List.not_mem_nil)
  · obtain ⟨⟨obs, htrace, -⟩, -, heffects⟩ := hclosed.frame
    rw [show (result, w).2.trace = w₀.trace ++ obs from htrace] at hserved hund
    obtain ⟨-, hopen, -⟩ := hhalt.gaveUp hserved.of_append
    have hmem := hhalt.kept.pending row (heffects ▸ hrow) ht hp
    rw [hopen hund.of_append] at hmem
    exact absurd hmem (List.not_mem_nil)

/-- The effects of a published report are complete. -/
theorem published_noneOutlives :
    NoneOutlives "task-1" (published.runTask {} "task-1" sampleTask).2.store :=
  noneOutlives_of_undisturbed published {} ⟨[], rfl⟩ "task-1" rfl sampleTask published_smooth.1
    published_smooth.2.2.1

/-- The task is cancelled while the model streams. -/
def cancelledStream : AgentRuntime := sampleRuntime { sampleEnv [] with cancelAt := some 24 } {}

/-- **An effect outlives its task**, when the task is cancelled while it is open: the
task is recorded as cancelled, and its effect stays pending. -/
theorem cancelledStream_pending :
    ¬ ∀ (A : AgentRuntime) (store : EngineStore),
      EngineStore.Reachable A.platform.toPlatform store → ∀ taskId, store.hasTask taskId = false →
        ∀ task, Served (A.runTask store taskId task).2.trace →
          ¬ Unfinished taskId (A.runTask store taskId task).2.store →
            NoneOutlives taskId (A.runTask store taskId task).2.store := by
  intro h
  have hrun : Served (cancelledStream.runTask {} "task-1" sampleTask).2.trace ∧
      (∃ e ∈ (cancelledStream.runTask {} "task-1" sampleTask).2.store.eventsOf "task-1",
        e.eventKind = "cancelled") ∧
      ∃ row ∈ (cancelledStream.runTask {} "task-1" sampleTask).2.store.effects,
        row.taskId = "task-1" ∧ row.status = "pending" := by decide +kernel
  obtain ⟨hserved, ⟨e, he, hkind⟩, row, hrow, ht, hp⟩ := hrun
  have hended : ¬ Unfinished "task-1" (cancelledStream.runTask {} "task-1" sampleTask).2.store := by
    intro hun
    refine hun e he ?_
    rw [hkind]
    simp [TerminalKind]
  exact h cancelledStream {} ⟨[], rfl⟩ "task-1" rfl sampleTask hserved hended row hrow ht hp

/-! ## Store failures -/

def Obs.failsOutright : Obs → Bool
  | .call _ answer => answer.failsOutright
  | _ => false

/-- Exactly one store call fails outright, without effect, and it is `c`: any other is
served, or refused over a sequence number. -/
def OneFault (trace : List Obs) (c : StoreCall) : Prop :=
  ∃ text, trace.filter Obs.failsOutright = [.call c (.fault text)]

/-- The calls after whose failure the end of a task can still be recorded. -/
def StoreCall.Recoverable : StoreCall → Prop
  | .beginEffect _ _ | .completeEffect _ _ => True
  | .putCheckpoint _ input => input.phase ∉ ["suspended", "cancelled", "failed"]
  | _ => False

/-- The last event of the task is a terminal one that was stored at the next sequence
number, and the task has its phase. -/
def TerminalAccepted (t : String) (s : EngineStore) : Prop :=
  ∃ before last row, s.eventsOf t = before ++ [last] ∧ TerminalKind last.eventKind ∧
    last.seq = (before.map (·.seq)).max?.getD 0 + 1 ∧
    s.taskOf t = some row ∧ row.phase = last.eventKind

theorem Served.noFault {trace : List Obs} (h : Served trace) : trace.filter Obs.failsOutright = [] := by
  refine List.filter_eq_nil_iff.2 fun o ho hfault => ?_
  cases o with
  | call c answer =>
    rw [h c answer ho] at hfault
    simp [Obs.failsOutright, CallAnswer.failsOutright] at hfault
  | _ => simp [Obs.failsOutright] at hfault

theorem LogOK.last_seq {s : EngineStore} (h : LogOK s) {before : List EventRow} {last : EventRow}
    (hlog : s.eventsOf t = before ++ [last]) :
    last.seq = (before.map (·.seq)).max?.getD 0 + 1 := by
  have hnum := h.numbered t
  rw [EngineStore.seqs, hlog, List.map_append] at hnum
  obtain ⟨hbefore, hlast⟩ := Table.Numbered.of_snoc hnum
  rw [hbefore.max]
  exact hlast

theorem Recorded.logOK {C : Type} {P : Platform} {event : AgentEvent} {delivered : Bool} {u w : World C}
    (hrec : Recorded P event delivered u w) (h : LogOK u.store) : LogOK w.store := by
  obtain ⟨s, happ, hacc⟩ := hrec.stored
  exact (h.step happ.step).step hacc.step

/-- **The log can be finished** after a failed begin, completion or checkpoint. -/
theorem terminalAccepted_of_recoverable (A : AgentRuntime) (store : EngineStore)
    (h : EngineStore.Reachable A.platform.toPlatform store) (taskId : String)
    (hnew : store.hasTask taskId = false) (task : RuntimeTask) (c : StoreCall)
    (hone : OneFault (A.runTask store taskId task).2.trace c) (hc : c.Recoverable) :
    TerminalAccepted taskId (A.runTask store taskId task).2.store := by
  generalize hrun : A.runTask store taskId task = p at hone ⊢
  obtain ⟨result, w⟩ := p
  obtain ⟨text, hfault⟩ := hone
  have hfault : w.trace.filter Obs.failsOutright = [.call c (.fault text)] := hfault
  have hmem : .call c (.fault text) ∈ w.trace :=
    (List.mem_filter.1 (hfault ▸ List.mem_singleton_self _)).1
  rcases runTask_cases h hnew task hrun with ⟨_, -, rfl | ⟨-, now, input, answer, htrace, -⟩⟩ |
    ⟨_, -, v, -, -, hr, -⟩ | ⟨e, e', w₀, -, ⟨rfl, hhalt⟩, hclosed⟩
  · exact absurd hmem (List.not_mem_nil)
  · -- the task was not created
    rw [htrace, List.mem_singleton] at hmem
    obtain ⟨rfl, -⟩ := Obs.call.inj hmem
    exact absurd hc id
  · rw [hr.served.noFault] at hfault; simp at hfault
  have hrecorded : ∀ {event phase u delivered}, Closing w₀ u event phase →
      Recorded A.platform.toPlatform event delivered u w → TerminalAccepted w₀.run.taskId w.store := by
    intro event phase u delivered hclosing hrec
    obtain ⟨last, row, hlog, hkind, hterm, hrow, hphase⟩ := hclosing.recorded hrec
    exact ⟨_, last, row, hlog, hkind ▸ hterm,
      (hrec.logOK (hclosing.store ▸ hhalt.kept.log)).last_seq hlog, hrow, hphase.trans hkind.symm⟩
  obtain ⟨⟨obs, htrace, -⟩, -⟩ := hclosed.frame
  rw [htrace, List.filter_append] at hfault
  cases hhalt.cause with
  | gaveUp hserved hin _ _ =>
    -- the failed call is one of the two that record the end
    rw [hserved.noFault, List.nil_append] at hfault
    cases hclosed with
    | silent _ hw =>
      obtain rfl : obs = [] := by simpa [hw, World.advance] using htrace.symm
      simp at hfault
    | recorded event phase u hclosing hrec => exact hrecorded hclosing hrec
    | failed event phase u e' hclosing herr =>
      cases herr with
      | unappended now answer _ _ _ _ htrace' =>
        obtain rfl := List.append_cancel_left (htrace.symm.trans (hclosing.trace ▸ htrace'))
        have hin := (List.mem_filter.1 (hfault ▸ List.mem_singleton_self _)).1
        obtain ⟨rfl, -⟩ := Obs.call.inj (List.mem_singleton.1 hin)
        exact absurd hc id
      | unaccepted now now' answer _ _ _ _ _ htrace' =>
        obtain rfl := List.append_cancel_left (htrace.symm.trans (hclosing.trace ▸ htrace'))
        have hin := (List.mem_filter.1 (hfault ▸ List.mem_singleton_self _)).1
        rcases List.mem_cons.1 hin with heq | hin
        · obtain ⟨-, hanswer⟩ := Obs.call.inj heq
          simp at hanswer
        · -- the phase of that checkpoint is the one the task ends with
          obtain ⟨rfl, -⟩ := Obs.call.inj (List.mem_singleton.1 hin)
          have hphase : (u.run.next.checkpointInput).phase = phase.asStr :=
            congrArg AgentPhase.asStr hclosing.inPhase
          refine absurd ?_ hc
          rw [hphase]
          have hne := hclosing.notCompleted
          have hterm := hclosing.terminal
          cases event <;> simp [AgentEvent.terminalPhase] at hterm <;> subst hterm <;>
            simp [AgentPhase.asStr] at hne ⊢
      | undelivered hrec => exact hrecorded hclosing hrec
  | failed before c₀ answer htrace₀ hserved hout herror hin _ =>
    rw [htrace₀, List.filter_append, hserved.noFault, List.nil_append,
      List.filter_cons_of_pos (show Obs.failsOutright (.call c₀ answer) = true from hout),
      List.filter_nil, List.cons_append, List.nil_append] at hfault
    obtain ⟨heq, hrest⟩ := List.cons.inj hfault
    obtain ⟨rfl, -⟩ := Obs.call.inj heq
    have hin : w₀.store.maxSeq w₀.run.taskId = w₀.run.seq := by
      rcases hin with hin | ⟨now, input, rfl⟩
      · exact hin
      · exact absurd hc id
    -- whatever follows the failed call is served, so the end is recorded
    cases hclosed with
    | silent hne _ =>
      obtain ⟨message, rfl⟩ := herror
      exact absurd rfl (hne message)
    | recorded event phase u hclosing hrec => exact hrecorded hclosing hrec
    | failed event phase u e' hclosing herr =>
      refine hrecorded hclosing (herr.undelivered_of_served ?_ (hclosing.trace ▸ htrace)
        fun c' answer hmem' => ?_)
      · rw [hclosing.store, hclosing.taskId, hclosing.seq]; exact hin
      · by_contra hbad
        have hin' : .call c' answer ∈ obs.filter Obs.failsOutright :=
          List.mem_filter.2 ⟨hmem', by simpa [Obs.failsOutright] using hbad⟩
        rw [hrest] at hin'
        exact absurd hin' (List.not_mem_nil)

/-- The effect of the model selection cannot be begun. -/
def lostBegin : AgentRuntime :=
  sampleRuntime { sampleEnv [] with
    storeFault := fun tick => if tick = 14 then some "database is locked" else none } {}

/-- The task is recorded as failed. -/
theorem lostBegin_accepted :
    TerminalAccepted "task-1" (lostBegin.runTask {} "task-1" sampleTask).2.store :=
  terminalAccepted_of_recoverable lostBegin {} ⟨[], rfl⟩ "task-1" rfl sampleTask
    (.beginEffect 0 {
      effectId := "effect-13", taskId := "task-1", causedBySeq := 4,
      effectKind := "provider.model.select", effect := .obj [("provider", .str "provider")],
      idempotencyKey := "task-1:4:provider.model.select" })
    ⟨"database is locked", by decide +kernel⟩ trivial

/-- The first event cannot be appended. -/
def lostAppend : AgentRuntime :=
  sampleRuntime { sampleEnv [] with
    storeFault := fun tick => if tick = 1 then some "database is locked" else none } {}

def StoreCall.isStep : StoreCall → Bool
  | .appendEvent _ _ | .putCheckpoint _ _ | .beginEffect _ _ | .completeEffect _ _ => true
  | _ => false

/-- **A task is left unfinished** by an append that fails: the number it took is never
used, and every later event leaves a gap. -/
theorem lostAppend_unfinished :
    ¬ ∀ (A : AgentRuntime) (store : EngineStore),
      EngineStore.Reachable A.platform.toPlatform store → ∀ taskId, store.hasTask taskId = false →
        ∀ task c, OneFault (A.runTask store taskId task).2.trace c → c.isStep = true →
          TerminalAccepted taskId (A.runTask store taskId task).2.store := by
  intro h
  obtain ⟨before, last, -, hlog, -⟩ := h lostAppend {} ⟨[], rfl⟩ "task-1" rfl sampleTask
    (.appendEvent 0 {
      taskId := "task-1", seq := 1, eventId := "task-1:1", eventKind := "session_started",
      event := (AgentEvent.sessionStarted "task-1" sampleTask.objective).toJson })
    ⟨"database is locked", by decide +kernel⟩ rfl
  have hnone : (lostAppend.runTask {} "task-1" sampleTask).2.store.eventsOf "task-1" = [] := by
    decide +kernel
  rw [hnone] at hlog
  simp at hlog

end Astock
