import Astock.Proof.StoreRuns

/-!
# The event log of the Agent store

* `LogOK`: in every reachable store (`reachable_logOK`) the events of each task
  are numbered 1, 2, .., n, event ids are unique across tasks, and the accepted
  sequence number of a task is at most n.
* `LogExt`: what a run adds to (`afterAll_logExt`): events are only ever added at the end, and
  the accepted sequence number of a task only ever rises.
* `eventLog_run`: both, for every run, and a refused call changes no row.
* `honestReplay_iff`: **an append answered as a replay is one, except that the
  kind of the event is not compared.**
-/

namespace Astock

open Prog

variable {P : Platform} {s s' : EngineStore} {now : ℤ}

/-! ## Reading the log -/

theorem hasTask_iff {taskId : String} :
    s.hasTask taskId = true ↔ ∃ row ∈ s.tasks, row.taskId = taskId := by
  have h : s.taskOf taskId = none ↔ _ := Table.find_eq_none TaskRow.taskId
  rw [EngineStore.hasTask, Option.isSome_iff_ne_none, ne_eq, h]
  push Not
  rfl

theorem eventsOf_addEvent_self (row : EventRow) :
    (s.addEvent row).eventsOf row.taskId = s.eventsOf row.taskId ++ [row] := by
  simp [EngineStore.eventsOf, EngineStore.addEvent, List.filter_append]

theorem eventsOf_addEvent_of_ne {row : EventRow} {taskId : String} (h : taskId ≠ row.taskId) :
    (s.addEvent row).eventsOf taskId = s.eventsOf taskId := by
  simp [EngineStore.eventsOf, EngineStore.addEvent, List.filter_append, h.symm]

/-- The sequence numbers of a task's events, in insertion order. -/
def EngineStore.seqs (s : EngineStore) (taskId : String) : List ℤ := (s.eventsOf taskId).map (·.seq)

/-- **The invariant of the event log.** -/
structure LogOK (s : EngineStore) : Prop where
  /-- The sequence numbers of a task are 1, 2, .., n: no gap, no duplicate. -/
  numbered : ∀ taskId, Table.Numbered (s.seqs taskId)
  eventIds : (s.events.map (·.eventId)).Nodup
  taskIds : (s.tasks.map (·.taskId)).Nodup
  /-- A checkpoint never runs ahead of the log. -/
  accepted : ∀ row ∈ s.tasks, 0 ≤ row.acceptedSeq ∧ row.acceptedSeq ≤ s.maxSeq row.taskId
  identities : ∀ row ∈ s.events, ValidIdentity row.taskId ∧ ValidIdentity row.eventId

theorem LogOK.maxSeq (h : LogOK s) (taskId : String) :
    s.maxSeq taskId = (s.seqs taskId).length := (h.numbered taskId).max

theorem LogOK.init : LogOK {} where
  numbered := fun _ => rfl
  eventIds := List.nodup_nil
  taskIds := List.nodup_nil
  accepted := by simp
  identities := by simp

/-- The invariant reads the tables of tasks and events only. -/
theorem LogOK.congr (h : LogOK s) (ht : s'.tasks = s.tasks) (he : s'.events = s.events) :
    LogOK s' := by
  have hs : ∀ t, s'.seqs t = s.seqs t := fun t => by
    simp only [EngineStore.seqs, EngineStore.eventsOf, he]
  have hm : ∀ t, s'.maxSeq t = s.maxSeq t := fun t => by
    simp only [EngineStore.maxSeq, EngineStore.eventsOf, he]
  refine ⟨fun t => hs t ▸ h.numbered t, he ▸ h.eventIds, ht ▸ h.taskIds, fun row hrow => ?_, he ▸ h.identities⟩
  rw [hm]
  exact h.accepted row (ht ▸ hrow)

theorem LogOK.create (h : LogOK s) (input : CreateTask) (hnew : s.hasTask input.taskId = false) :
    LogOK (s.addTask (input.row now)) where
  numbered := h.numbered
  eventIds := h.eventIds
  taskIds := by
    have hfresh : ∀ row ∈ s.tasks, row.taskId ≠ input.taskId := fun row hrow heq => by
      rw [hasTask_iff.2 ⟨row, hrow, heq⟩] at hnew; simp at hnew
    simp only [EngineStore.addTask, List.map_append, List.map_cons, List.map_nil]
    refine List.nodup_append.2 ⟨h.taskIds, List.nodup_singleton _, ?_⟩
    intro a ha b hb
    obtain ⟨row, hrow, rfl⟩ := List.mem_map.1 ha
    rw [List.mem_singleton.1 hb]
    exact hfresh row hrow
  accepted := by
    intro row hrow
    rcases List.mem_append.1 hrow with hrow | hrow
    · exact h.accepted row hrow
    · -- a new task has accepted nothing
      obtain rfl := List.mem_singleton.1 hrow
      refine ⟨le_refl _, ?_⟩
      show (0 : ℤ) ≤ s.maxSeq input.taskId
      rw [h.maxSeq]; omega
  identities := h.identities

theorem LogOK.append (h : LogOK s) (input : AppendEvent) (htask : ValidIdentity input.taskId)
    (hid : ValidIdentity input.eventId) (hseq : input.seq = s.maxSeq input.taskId + 1)
    (hfresh : ∀ e ∈ s.events, e.eventId ≠ input.eventId) :
    LogOK (s.addEvent (input.row now)) := by
  set row := input.row now with hrow
  have hself : (s.addEvent row).seqs input.taskId
      = s.seqs input.taskId ++ [((s.seqs input.taskId).length : ℤ) + 1] := by
    have he : (s.addEvent row).eventsOf input.taskId = s.eventsOf input.taskId ++ [row] :=
      eventsOf_addEvent_self row
    rw [EngineStore.seqs, he, List.map_append, ← h.maxSeq, ← hseq]
    rfl
  have hother : ∀ t, t ≠ input.taskId → (s.addEvent row).eventsOf t = s.eventsOf t :=
    fun t ht => eventsOf_addEvent_of_ne ht
  have hnum : ∀ t, Table.Numbered ((s.addEvent row).seqs t) := by
    intro t
    by_cases ht : t = input.taskId
    · rw [ht, hself]; exact (h.numbered _).snoc
    · rw [EngineStore.seqs, hother t ht]; exact h.numbered t
  refine ⟨hnum, ?_, h.taskIds, fun r hr => ?_, fun e he => ?_⟩
  · simp only [EngineStore.addEvent, List.map_append, List.map_cons, List.map_nil]
    refine List.nodup_append.2 ⟨h.eventIds, List.nodup_singleton _, ?_⟩
    intro a ha b hb
    obtain ⟨e, he, rfl⟩ := List.mem_map.1 ha
    rw [List.mem_singleton.1 hb]
    exact hfresh e he
  · have hr := h.accepted r hr
    refine ⟨hr.1, ?_⟩
    by_cases ht : r.taskId = input.taskId
    · -- the log of this task is one longer
      have hmax : (s.addEvent row).maxSeq r.taskId = ((s.addEvent row).seqs r.taskId).length :=
        (hnum _).max
      rw [hmax, ht, hself, List.length_append, List.length_singleton]
      rw [h.maxSeq, ht] at hr
      push_cast
      omega
    · rw [EngineStore.maxSeq, hother _ ht]; exact hr.2
  · rcases List.mem_append.1 he with he | he
    · exact h.identities e he
    · obtain rfl := List.mem_singleton.1 he; exact ⟨htask, hid⟩

theorem LogOK.accept (h : LogOK s) (input : PutCheckpoint) {row : TaskRow}
    (hrow : s.taskOf input.taskId = some row) (hle : row.acceptedSeq ≤ input.acceptedSeq)
    (hmax : input.acceptedSeq ≤ s.maxSeq input.taskId) :
    LogOK (s.updateTask input.taskId (·.accept now input)) where
  numbered := h.numbered
  eventIds := h.eventIds
  taskIds := by
    have hkeys : (s.updateTask input.taskId (·.accept now input)).tasks.map (·.taskId)
        = s.tasks.map (·.taskId) := Table.map_key_update TaskRow.taskId fun _ => rfl
    rw [hkeys]; exact h.taskIds
  accepted := by
    intro r hr
    obtain ⟨r₀, hr₀, ⟨hkey, rfl⟩ | ⟨-, rfl⟩⟩ := Table.mem_update hr
    · have hpos := (h.accepted row (Table.mem_of_find hrow)).1
      refine ⟨le_trans hpos hle, ?_⟩
      show input.acceptedSeq ≤ s.maxSeq r₀.taskId
      rw [hkey]; exact hmax
    · exact h.accepted r hr₀
  identities := h.identities

/-- **Every step keeps the invariant.** -/
theorem LogOK.step (h : LogOK s) (hstep : StoreStep P s s') : LogOK s' := by
  cases hstep with
  | same hsame => exact h.congr hsame.1 hsame.2.1
  | create now input _ hnew => exact h.create input hnew
  | append now input htask hid hseq hfresh _ => exact h.append input htask hid hseq hfresh
  | accept now input row hrow hle hmax => exact h.accept input hrow hle hmax
  | begin now input _ _ _ => exact h.congr rfl rfl
  | finish now input row _ _ _ => exact h.congr rfl rfl

theorem afterAll_logOK (h : LogOK s) (cs : List StoreCall) : LogOK (s.afterAll P cs) :=
  Run.run_invariant (fun s c h => LogOK.step h (after_step s c)) cs s h

theorem reachable_logOK (h : EngineStore.Reachable P s) : LogOK s := by
  obtain ⟨cs, rfl⟩ := h
  exact afterAll_logOK LogOK.init cs

/-! ## What a run adds -/

/-- A task row later on: the same task, whose accepted sequence number only rises. -/
def TaskRow.Later (row row' : TaskRow) : Prop :=
  row'.taskId = row.taskId ∧ row'.taskSpecJson = row.taskSpecJson ∧ row.acceptedSeq ≤ row'.acceptedSeq

theorem TaskRow.Later.refl (row : TaskRow) : row.Later row := ⟨rfl, rfl, le_refl _⟩

theorem TaskRow.Later.trans (a b c : TaskRow) (h₁ : a.Later b) (h₂ : b.Later c) : a.Later c :=
  ⟨h₂.1.trans h₁.1, h₂.2.1.trans h₁.2.1, le_trans h₁.2.2 h₂.2.2⟩

/-- Events are only added, after the ones there are, and tasks only move forward. -/
structure LogExt (s s' : EngineStore) : Prop where
  events : s.events <+: s'.events
  tasks : Table.Grows TaskRow.taskId TaskRow.Later s.tasks s'.tasks

theorem LogExt.refl (s : EngineStore) : LogExt s s :=
  ⟨List.prefix_refl _, Table.Grows.refl TaskRow.Later.refl _⟩

theorem LogExt.trans (s t u : EngineStore) (h₁ : LogExt s t) (h₂ : LogExt t u) : LogExt s u :=
  ⟨h₁.events.trans h₂.events, h₁.tasks.trans TaskRow.Later.trans h₂.tasks⟩

theorem StoreStep.logExt (hstep : StoreStep P s s') : LogExt s s' := by
  have hrefl : Table.Grows TaskRow.taskId TaskRow.Later s.tasks s.tasks :=
    Table.Grows.refl TaskRow.Later.refl _
  cases hstep with
  | same hsame => exact ⟨hsame.2.1 ▸ List.prefix_refl _, hsame.1 ▸ hrefl⟩
  | create now input _ _ => exact ⟨List.prefix_refl _, Table.Grows.insert TaskRow.Later.refl _ _⟩
  | append now input _ _ _ _ _ => exact ⟨List.prefix_append _ _, hrefl⟩
  | accept now input row hrow hle _ =>
    refine ⟨List.prefix_refl _, Table.Grows.update TaskRow.Later.refl (fun _ => rfl) ?_⟩
    intro r hr
    obtain rfl := Option.some.inj (hr.symm.trans hrow)
    exact ⟨rfl, rfl, hle⟩
  | begin now input _ _ _ => exact ⟨List.prefix_refl _, hrefl⟩
  | finish now input row _ _ _ => exact ⟨List.prefix_refl _, hrefl⟩

theorem afterAll_logExt (s : EngineStore) (cs : List StoreCall) : LogExt s (s.afterAll P cs) :=
  Run.run_rel (I := fun _ => True) LogExt.refl LogExt.trans (fun _ _ _ => trivial)
    (fun s c _ => (after_step s c).logExt) cs s trivial

/-- A call answered with an error changes no task, event or effect. -/
theorem after_error {c : StoreCall} {e : StoreError} (h : (exec (c.prog P) s).1 = .error e) :
    SameLog s (s.after P c) :=
  (prog_spec c).error (s := s) (e := e) rfl (Prod.ext h rfl)

/-- **The event log along every run.** From the empty store, any calls in any
order leave a log that is numbered without gaps, whose event ids are unique and
whose checkpoints lie within it; what it holds stays, whatever follows; and a call
answered with an error leaves every row as it was. -/
theorem eventLog_run (P : Platform) (cs : List StoreCall) :
    LogOK (EngineStore.afterAll P {} cs) ∧
      (∀ cs', LogExt (EngineStore.afterAll P {} cs) (EngineStore.afterAll P {} (cs ++ cs'))) ∧
      ∀ c e, (exec (c.prog P) (EngineStore.afterAll P {} cs)).1 = .error e →
        SameLog (EngineStore.afterAll P {} cs) ((EngineStore.afterAll P {} cs).after P c) := by
  refine ⟨afterAll_logOK LogOK.init cs, fun cs' => ?_, fun c e h => after_error h⟩
  have happ : EngineStore.afterAll P {} (cs ++ cs')
      = (EngineStore.afterAll P {} cs).afterAll P cs' := Run.run_append _ _ _
  rw [happ]
  exact afterAll_logExt _ cs'

/-- One task with one event. -/
def oneEvent : List StoreCall := [
  .createTask 0 {
    taskId := "task-1", reducerVersion := "agent-reducer-v2", taskSpec := .null, phase := "created" },
  .appendEvent 0 {
    taskId := "task-1", seq := 1, eventId := "task-1:1", eventKind := "tool_requested",
    event := .null }]

/-! ## Replays -/

/-- With distinct sequence numbers, the event at a number is the only one there. -/
theorem LogOK.eventAt_iff (h : LogOK s) {taskId : String} {seq : ℤ} {row : EventRow} :
    s.eventAt taskId seq = some row ↔ row ∈ s.events ∧ row.taskId = taskId ∧ row.seq = seq := by
  have hat : s.eventAt taskId seq = Table.find EventRow.seq seq (s.eventsOf taskId) := by
    simp only [EngineStore.eventAt, Table.find, EngineStore.eventsOf, List.find?_filter]
    congr 1; funext e; simp
  have hmem : ∀ {r}, r ∈ s.eventsOf taskId ↔ r ∈ s.events ∧ r.taskId = taskId := by
    intro r; simp [EngineStore.eventsOf]
  rw [hat]
  constructor
  · intro hf
    have := hmem.1 (Table.mem_of_find hf)
    exact ⟨this.1, this.2, Table.key_of_find hf⟩
  · rintro ⟨hin, ht, hseq⟩
    have hf := Table.find_of_mem (h.numbered taskId).nodup (hmem.2 ⟨hin, ht⟩)
    rwa [hseq] at hf

/-- The event agrees with the call in every field the call submits. -/
def AppendEvent.Agrees (input : AppendEvent) (row : EventRow) : Prop :=
  row.eventId = input.eventId ∧ row.eventKind = input.eventKind ∧ row.eventJson = input.event

/-- **An honest answer** to an append: `Ok(false)` only for a replay of the stored
event, and an error for anything else at a used sequence number. -/
structure HonestReplay (s : EngineStore) (now : ℤ) (input : AppendEvent) : Prop where
  replay : (exec (appendEvent now input) s).1 = .ok false →
    ∃ row ∈ s.events, row.taskId = input.taskId ∧ row.seq = input.seq ∧ input.Agrees row
  refuse : ∀ row ∈ s.events, row.taskId = input.taskId → row.seq = input.seq → ¬ input.Agrees row →
    ∃ e, (exec (appendEvent now input) s).1 = .error e

/-- The stored event has the id and the body of the call but another kind. -/
def KindDiffers (s : EngineStore) (input : AppendEvent) : Prop :=
  ∃ row ∈ s.events, row.taskId = input.taskId ∧ row.seq = input.seq ∧
    row.eventId = input.eventId ∧ row.eventJson = input.event ∧ row.eventKind ≠ input.eventKind

/-- At a used sequence number, the id and the body decide the answer. -/
theorem LogOK.append_used (h : LogOK s) (now : ℤ) {input : AppendEvent} {row : EventRow} (hrow : row ∈ s.events)
    (ht : row.taskId = input.taskId) (hseq : row.seq = input.seq) :
    (exec (appendEvent now input) s).1 = .ok false ∧
        row.eventId = input.eventId ∧ row.eventJson = input.event ∨
      (∃ e, (exec (appendEvent now input) s).1 = .error e) ∧
        ¬ (row.eventId = input.eventId ∧ row.eventJson = input.event) := by
  have hat : s.eventAt input.taskId input.seq = some row := h.eventAt_iff.2 ⟨hrow, ht, hseq⟩
  have hused : 1 ≤ input.seq ∧ input.seq ≤ s.maxSeq input.taskId := by
    rw [h.maxSeq, ← (h.numbered _).mem_iff, ← hseq]
    exact List.mem_map_of_mem (by simpa [EngineStore.eventsOf] using ⟨hrow, ht⟩)
  by_cases hsame : row.eventId = input.eventId ∧ row.eventJson = input.event
  · left
    -- the checks on the identities pass, since the stored event passed them
    obtain ⟨htask, hid⟩ := h.identities row hrow
    rw [ht] at htask
    rw [hsame.1] at hid
    refine ⟨?_, hsame⟩
    have hpos : 0 < input.seq := by omega
    rw [appendEvent, exec_validateIdentity_bind htask, exec_validateIdentity_bind hid,
      exec_guardOr_bind, if_pos (by simpa using hpos), exec_atomically, exec_bind_ok (exec_get s)]
    simp only [if_pos hused.2, hat, if_pos hsame, exec_pure]
  · right
    refine ⟨?_, hsame⟩
    have hspec := appendEvent_spec now input s rfl
    rcases hr : exec (appendEvent now input) s with ⟨e | inserted, s'⟩
    · exact ⟨e, rfl⟩
    · rw [hr] at hspec
      cases inserted with
      | true =>
        obtain ⟨-, ⟨-, hnext⟩, -⟩ := hspec
        omega
      | false =>
        obtain ⟨-, row', hat', hsame'⟩ := hspec
        obtain rfl := Option.some.inj (hat.symm.trans hat')
        exact absurd hsame' hsame

/-- **When the log answers honestly.** In every reachable store the answer to an
append is honest exactly when the stored event does not differ in its kind alone. -/
theorem honestReplay_iff (P : Platform) (s : EngineStore) (h : EngineStore.Reachable P s) (now : ℤ)
    (input : AppendEvent) : HonestReplay s now input ↔ ¬ KindDiffers s input := by
  have hs := reachable_logOK h
  constructor
  · rintro ⟨-, hrefuse⟩ ⟨row, hrow, ht, hseq, hid, hjson, hkind⟩
    obtain ⟨e, he⟩ := hrefuse row hrow ht hseq fun hagree => hkind hagree.2.1
    obtain ⟨hok, -⟩ | ⟨-, hne⟩ := hs.append_used now hrow ht hseq
    · rw [hok] at he; simp at he
    · exact hne ⟨hid, hjson⟩
  · intro hkind
    have hsame : ∀ row ∈ s.events, row.taskId = input.taskId → row.seq = input.seq →
        row.eventId = input.eventId ∧ row.eventJson = input.event → input.Agrees row := by
      intro row hrow ht hseq ⟨hid, hjson⟩
      refine ⟨hid, ?_, hjson⟩
      by_contra hne
      exact hkind ⟨row, hrow, ht, hseq, hid, hjson, hne⟩
    constructor
    · intro hok
      have hspec := appendEvent_spec now input s rfl
      rcases hr : exec (appendEvent now input) s with ⟨e | inserted, s'⟩
      · rw [hr] at hok; simp at hok
      · rw [hr] at hok hspec
        obtain rfl : inserted = false := by simpa using hok
        obtain ⟨-, row, hat, hid, hjson⟩ := hspec
        obtain ⟨hrow, ht, hseq⟩ := hs.eventAt_iff.1 hat
        exact ⟨row, hrow, ht, hseq, hsame row hrow ht hseq ⟨hid, hjson⟩⟩
    · intro row hrow ht hseq hne
      obtain ⟨-, hsame'⟩ | ⟨herr, -⟩ := hs.append_used now hrow ht hseq
      · exact absurd (hsame row hrow ht hseq hsame') hne
      · exact herr

/-- The event of `oneEvent` again, under another kind. -/
def relabelled : AppendEvent where
  taskId := "task-1"
  seq := 1
  eventId := "task-1:1"
  eventKind := "tool_finished"
  event := .null

/-- The condition excludes inputs: the relabelled event is one. -/
theorem relabelled_not_honest :
    EngineStore.Reachable (.inOrder id) (EngineStore.afterAll (.inOrder id) {} oneEvent) ∧
      ¬ HonestReplay (EngineStore.afterAll (.inOrder id) {} oneEvent) 0 relabelled := by
  refine ⟨⟨oneEvent, rfl⟩, fun h => ?_⟩
  refine (honestReplay_iff (.inOrder id) _ ⟨oneEvent, rfl⟩ 0 relabelled).1 h ?_
  exact ⟨_, List.mem_singleton_self _, rfl, rfl, rfl, rfl, by decide⟩

/-- The store accepts the relabelled event as a replay. -/
theorem relabelled_accepted :
    ¬ ∀ (P : Platform) (s : EngineStore), EngineStore.Reachable P s →
      ∀ (now : ℤ) (input : AppendEvent), HonestReplay s now input := by
  intro h
  have hok : (exec (appendEvent 0 relabelled) (EngineStore.afterAll (.inOrder id) {} oneEvent)).1
      = .ok false := by decide
  obtain ⟨row, hrow, -, -, -, hkind, -⟩ :=
    (h (.inOrder id) _ ⟨oneEvent, rfl⟩ 0 relabelled).replay hok
  have hrows : ∀ row ∈ (EngineStore.afterAll (.inOrder id) {} oneEvent).events,
      row.eventKind = "tool_requested" := by decide
  rw [hrows row hrow] at hkind
  exact absurd hkind (by decide)

end Astock
