import Astock.Proof.LoopSteps

/-!
# Runs of a task

`runTask_cases`: **a run from a reachable store, with a new task id, never starts,
ends with a published report, or stops and records why.** The results about runs
read their parts off these cases.
-/

namespace Astock

open Prog

/-! ## Rows and their tasks -/

section Rooted

variable {P : Platform} {s s' : EngineStore} {t : String}

/-- Every event and every effect belongs to a task. -/
structure Rooted (s : EngineStore) : Prop where
  events : ∀ e ∈ s.events, s.hasTask e.taskId = true
  effects : ∀ row ∈ s.effects, s.hasTask row.taskId = true

/-- Tasks stay. -/
theorem StoreStep.hasTask (hstep : StoreStep P s s') (h : s.hasTask t = true) : s'.hasTask t = true := by
  obtain ⟨row, hrow⟩ := Option.isSome_iff_exists.1 h
  obtain ⟨row', hrow', -⟩ := hstep.logExt.tasks t row hrow
  exact Option.isSome_iff_exists.2 ⟨row', hrow'⟩

theorem Rooted.step (h : Rooted s) (hstep : StoreStep P s s') : Rooted s' := by
  have hold : ∀ {t}, s.hasTask t = true → s'.hasTask t = true := fun ht => hstep.hasTask ht
  cases hstep with
  | same hsame => exact ⟨fun e he => hold (h.events e (hsame.2.1 ▸ he)),
      fun row hrow => hold (h.effects row (hsame.2.2 ▸ hrow))⟩
  | create now input _ _ => exact ⟨fun e he => hold (h.events e he),
      fun row hrow => hold (h.effects row hrow)⟩
  | append now input _ _ _ _ hhas =>
    refine ⟨fun e he => ?_, fun row hrow => hold (h.effects row hrow)⟩
    rcases List.mem_append.1 he with he | he
    · exact hold (h.events e he)
    · obtain rfl := List.mem_singleton.1 he; exact hold hhas
  | accept now input _ _ _ _ => exact ⟨fun e he => hold (h.events e he),
      fun row hrow => hold (h.effects row hrow)⟩
  | begin now input _ _ hhas =>
    refine ⟨fun e he => hold (h.events e he), fun row hrow => ?_⟩
    rcases List.mem_append.1 hrow with hrow | hrow
    · exact hold (h.effects row hrow)
    · obtain rfl := List.mem_singleton.1 hrow; exact hold hhas
  | finish now input _ _ _ _ =>
    refine ⟨fun e he => hold (h.events e he), fun row hrow => ?_⟩
    obtain ⟨r₀, hr₀, ⟨-, rfl⟩ | ⟨-, rfl⟩⟩ := Table.mem_update hrow
    · exact hold (h.effects r₀ hr₀)
    · exact hold (h.effects _ hr₀)

theorem reachable_rooted (h : EngineStore.Reachable P s) : Rooted s := by
  obtain ⟨cs, rfl⟩ := h
  exact Run.run_invariant (fun s c h => Rooted.step h (after_step s c)) cs {} ⟨by simp, by simp⟩

end Rooted

/-! ## The start -/

section Start

variable {A : AgentRuntime} {t : String} {store : EngineStore}

/-- The allowance of submissions. -/
def AgentRuntime.allowance (A : AgentRuntime) : ℕ := max A.config.maxFinalizationAttempts 1

/-- The view of a task that has just started. -/
def View.start (A : AgentRuntime) : View := ⟨[], [], .new A.config.maxFinalizationAttempts⟩

theorem ready_start (messages : List Message) : Ready messages (View.start A) where
  settled := fun _ => Nat.zero_le _
  unexhausted := by simp [View.start, Unexhausted]
  answers := fun before text calls after heq => by simp [View.start] at heq

theorem sound_start : Sound A.allowance (View.start A) where
  allowance := rfl
  exhausted := iff_of_false (FinalizationLedger.new_not_spent _) (by simp [View.start, Unexhausted])
  bounded := fun _ => Nat.zero_le _
  requests := fun before messages after heq => by simp [View.start] at heq

/-- The row of the task could not be created, so there is no task. -/
def Unstarted (store : EngineStore) (w : World A.reports.Catalog) : Prop :=
  w.store = store ∧ ∃ now input answer, w.trace = [.call (.createTask now input) answer] ∧ answer ≠ .ok

/-- **Creating a task** with a new id. -/
theorem createTask_start (h : EngineStore.Reachable A.platform.toPlatform store)
    (hnew : store.hasTask t = false) (task : RuntimeTask) :
    Triple (· = A.start store t) (A.createTask t task)
      (fun _ => Live t A.allowance [] (View.start A))
      (fun _ => Unstarted store) := by
  have hroot := reachable_rooted h
  have hevents : store.eventsOf t = [] := by
    refine List.filter_eq_nil_iff.2 fun e he => ?_
    have hhas := hroot.events e he
    intro heq
    rw [of_decide_eq_true heq, hnew] at hhas
    simp at hhas
  refine (triple_storeCall (w := A.start store t) (F := fun _ => True)
    (Q := fun _ s => StoreStep A.platform.toPlatform store s ∧ s.events = store.events ∧
      s.effects = store.effects) fun now => ?_).conseq (fun _ h => h) ?_ ?_
  · refine triple_bind ((createTask_spec now _).conseq (fun _ h => h) (fun _ _ h => h) fun _ _ h => ⟨trivial, h⟩) fun inserted =>
      triple_pure ?_
    rintro s hs
    cases inserted with
    | true =>
      obtain ⟨hid, hfresh, rfl⟩ := hs
      exact ⟨.create now _ hid hfresh, rfl, rfl⟩
    | false =>
      obtain ⟨-, rfl⟩ := hs
      exact ⟨.same (SameLog.refl _), rfl, rfl⟩
  · rintro _ w ⟨now, s, ⟨hstep, hev, heff⟩, rfl⟩
    have hev' : s.eventsOf t = [] := by
      rw [EngineStore.eventsOf, hev]; exact hevents
    refine ⟨rfl, rfl, ⟨(reachable_logOK h).step hstep, (reachable_effectsOK h).step hstep, ?_⟩, ?_, ?_, ?_, ?_, rfl,
      sound_start⟩
    · intro row hrow ht _
      have hhas := hroot.effects row (heff ▸ hrow)
      rw [ht, hnew] at hhas
      simp at hhas
    · show s.maxSeq t = (0 : ℕ)
      rw [EngineStore.maxSeq, hev']; rfl
    · show Served ([] ++ [_]); simp
    · intro e he
      rw [answered_store, hev'] at he
      simp at he
    · exact fun _ => List.Subset.refl _
  · rintro e w ⟨-, now, answer, hfail, rfl⟩
    refine ⟨rfl, now, _, answer, rfl, ?_⟩
    rintro rfl
    exact hfail

end Start

/-! ## The end -/

section End

variable {A : AgentRuntime} {t : String} {e : RuntimeError} {w : World A.reports.Catalog}

/-- The event for an error is terminal, and never `Completed`. -/
theorem terminalEvent_phase {now : Instant} {event : AgentEvent} (h : A.terminalEvent e now = some event) :
    ∃ phase, event.terminalPhase = some phase ∧ phase ≠ .completed := by
  cases e with
  | provider error =>
    unfold AgentRuntime.terminalEvent at h
    simp only at h
    split at h
    · obtain ⟨action, -, rfl⟩ := Option.map_eq_some_iff.1 h
      exact ⟨.suspended, rfl, by simp⟩
    · obtain rfl := Option.some.inj h
      exact ⟨.failed, rfl, by simp⟩
  | cancelled =>
    obtain rfl := Option.some.inj h
    exact ⟨.cancelled, rfl, by simp⟩
  | _ =>
    obtain rfl := Option.some.inj h
    exact ⟨.failed, rfl, by simp⟩

/-- The world in which the terminal event of a stopped task is recorded. -/
structure Closing {C : Type} (w u : World C) (event : AgentEvent) (phase : AgentPhase) : Prop where
  taskId : u.run.taskId = w.run.taskId
  seq : u.run.seq = w.run.seq
  finalization : u.run.finalization = w.run.finalization
  store : u.store = w.store
  trace : u.trace = w.trace
  terminal : event.terminalPhase = some phase
  inPhase : u.run.phase = phase
  notCompleted : phase ≠ .completed

/-- How a stopped task records its end. Only a panic records nothing. -/
inductive Closed {C : Type} (P : Platform) (e : RuntimeError) (w w' : World C) : Prop
  | silent : (∀ text, e ≠ .store text) → w' = w.advance → Closed P e w w'
  | recorded (event : AgentEvent) (phase : AgentPhase) (u : World C) : Closing w u event phase →
      Recorded P event true u w' → Closed P e w w'
  | failed (event : AgentEvent) (phase : AgentPhase) (u : World C) (e' : RuntimeError) :
      Closing w u event phase → RecordError P event u w' e' → Closed P e w w'

/-- **A stopped task records its end**, or fails to. -/
theorem recordTerminal_spec {budget : ℕ} (h : Stopped t budget e w) :
    Triple (· = w) (A.recordTerminal e) (fun _ w' => Closed A.platform.toPlatform e w w')
      (fun _ w' => Closed A.platform.toPlatform e w w') := by
  obtain ⟨rfl, h⟩ := h
  refine triple_bind (Q := fun now w' => w' = w.advance) (fun _ hw => hw ▸ rfl) fun now => ?_
  split
  · rename_i hnone
    refine triple_throw fun _ hw => .silent ?_ hw
    rintro text rfl
    simp [AgentRuntime.terminalEvent] at hnone
  · rename_i event hsome
    obtain ⟨phase, hphase, hne⟩ := terminalEvent_phase hsome
    refine triple_modify_eq ?_
    have hclosing : Closing w (w.advance.mapRun fun r => r.setPhase (event.terminalPhase.getD r.phase))
        event phase := ⟨rfl, rfl, rfl, rfl, rfl, hphase, by rw [hphase]; rfl, hne⟩
    have hrecord := record_spec
      (w := w.advance.mapRun fun r => r.setPhase (event.terminalPhase.getD r.phase)) h.kept.log
      h.behind event
    refine triple_bind (triple_attempt hrecord) fun r => triple_pure fun w' hr => ?_
    cases r with
    | ok _ => exact .recorded event phase _ hclosing hr
    | error e' => exact .failed event phase _ e' hclosing hr

/-- What recording the end leaves alone. -/
theorem Closed.frame {C : Type} {P : Platform} {e : RuntimeError} {w w' : World C}
    (h : Closed P e w w') :
    (∃ obs, w'.trace = w.trace ++ obs ∧ obs.filter Obs.isReport = [] ∧
      obs.filter Obs.isDialogue = [] ∧ ∀ opened, obs.foldl stepOpen opened = opened) ∧
      w'.run.finalization = w.run.finalization ∧ w'.store.effects = w.store.effects := by
  cases h with
  | silent _ hw => exact ⟨⟨[], by simp [hw, World.advance], rfl, rfl, fun _ => rfl⟩, hw ▸ rfl, hw ▸ rfl⟩
  | recorded event phase u hclosing hrec =>
    obtain ⟨now, now', htrace⟩ := hrec.trace
    obtain ⟨s, happ, hacc⟩ := hrec.stored
    refine ⟨⟨_, hclosing.trace ▸ htrace, rfl, rfl, fun _ => rfl⟩, ?_, ?_⟩
    · rw [hrec.run]; exact hclosing.finalization
    · rw [hacc.effects, happ.effects, hclosing.store]
  | failed event phase u e' hclosing herr =>
    cases herr with
    | unappended now answer text hrun hstore hfail htrace =>
      exact ⟨⟨_, hclosing.trace ▸ htrace, rfl, rfl, fun _ => rfl⟩,
        by rw [hrun]; exact hclosing.finalization, by rw [hstore, hclosing.store]⟩
    | unaccepted now now' answer text hrun hin happ hfail htrace =>
      exact ⟨⟨_, hclosing.trace ▸ htrace, rfl, rfl, fun _ => by cases answer <;> rfl⟩,
        by rw [hrun]; exact hclosing.finalization, by rw [happ.effects, hclosing.store]⟩
    | undelivered hrec =>
      obtain ⟨now, now', htrace⟩ := hrec.trace
      obtain ⟨s, happ, hacc⟩ := hrec.stored
      refine ⟨⟨_, hclosing.trace ▸ htrace, rfl, rfl, fun _ => rfl⟩, ?_, ?_⟩
      · rw [hrec.run]; exact hclosing.finalization
      · rw [hacc.effects, happ.effects, hclosing.store]

theorem Closed.view {C : Type} {P : Platform} {e : RuntimeError} {w w' : World C}
    (h : Closed P e w w') :
    viewOf w'.trace w'.run.finalization = viewOf w.trace w.run.finalization := by
  obtain ⟨⟨obs, htrace, hr, hd, -⟩, hfin, -⟩ := h.frame
  rw [htrace, hfin, viewOf_append _ _ hr hd]

end End

/-- **How a run ends.** -/
theorem runTask_cases {A : AgentRuntime} {t : String} {store : EngineStore}
    (h : EngineStore.Reachable A.platform.toPlatform store) (hnew : store.hasTask t = false)
    (task : RuntimeTask) {result : Except RuntimeError RunOutcome} {w : World A.reports.Catalog}
    (hrun : A.runTask store t task = (result, w)) :
    (∃ e, result = .error e ∧ (w = A.start store t ∨ Unstarted store w)) ∨
      (∃ outcome, result = .ok outcome ∧ Ended t A.allowance w) ∨
      ∃ e e' w₀, result = .error e' ∧ Stopped t A.allowance e w₀ ∧
        Closed A.platform.toPlatform e w₀ w := by
  have htriple : Triple (· = A.start store t) (A.executeTask t task) (fun _ => Ended t A.allowance)
      (fun _ w => (w = A.start store t ∨ Unstarted store w) ∨ ∃ e w₀, Stopped t A.allowance e w₀ ∧
        Closed A.platform.toPlatform e w₀ w) := by
    unfold AgentRuntime.executeTask
    split
    · exact triple_throw fun _ hw => .inl (.inl hw)
    refine triple_bind ((createTask_start h hnew task).conseq (fun _ h => h) (fun _ _ h => h)
      fun _ _ h => .inl (.inr h)) fun _ => ?_
    refine triple_bind (triple_attempt (executeLoop_spec task ready_start)) fun r => ?_
    cases r with
    | ok outcome => exact triple_pure fun _ hw => hw
    | error e =>
      refine triple_each fun w₀ hstop => triple_bind ((recordTerminal_spec hstop).conseq
        (fun _ h => h) (fun _ _ h => h) fun _ _ h => .inr ⟨e, w₀, hstop, h⟩) fun _ => ?_
      exact triple_throw fun _ hclosed => .inr ⟨e, w₀, hstop, hclosed⟩
  have hspec := htriple (A.start store t) rfl
  rw [show exec (A.executeTask t task) (A.start store t) = (result, w) from hrun] at hspec
  cases result with
  | ok outcome => exact .inr (.inl ⟨outcome, rfl, hspec⟩)
  | error e' =>
    rcases hspec with hspec | ⟨e, w₀, hstop, hclosed⟩
    · exact .inl ⟨e', rfl, hspec⟩
    · exact .inr (.inr ⟨e, e', w₀, rfl, hstop, hclosed⟩)

end Astock
