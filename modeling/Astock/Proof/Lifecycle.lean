import Astock.Lib.Run
import Astock.Spec.Lifecycle

/-!
# The lifecycle of an event is audited

* `step_cases`: what a call does to the tables.
* `Orderly`: an event is not extracted again with another lifecycle, and a transition has an id of
  its own and is not earlier than those before it.
* `lifecycle_audited`: **in every run of orderly calls, every change of a lifecycle is allowed and
  recorded**, and the timeline is the chain of the accepted transitions.
-/

namespace Astock

open Prog

variable {shortHash : String → String} {s s' : EventTables} {call : EventCall}

/-! ## What a call does -/

/-- Evidence touches no other table. -/
theorem upsertEvidence_frame (evidence : EventFieldEvidence) (s : EventTables) :
    ∃ rows, (exec (upsertEvidence evidence) s).2 = { s with evidence := rows } := by
  have hwrite : ∀ (c : Bool) (rows : List EventFieldEvidence), ∃ rows',
      (exec (guardOr c (.constraint "event_field_evidence") >>= fun _ =>
        (set { s with evidence := rows } : Prog EventTables EventError PUnit)) s).2 =
      { s with evidence := rows' } := by
    intro c rows
    rw [exec_guardOr_bind]
    split
    · exact ⟨rows, rfl⟩
    · exact ⟨s.evidence, rfl⟩
  unfold upsertEvidence
  rw [exec_bind_ok (exec_get s)]
  exact hwrite _ _

theorem forM_upsertEvidence_frame (evidence : List EventFieldEvidence) (s : EventTables) :
    ∃ rows, (exec (evidence.forM upsertEvidence) s).2 = { s with evidence := rows } := by
  induction evidence generalizing s with
  | nil => exact ⟨s.evidence, rfl⟩
  | cons e evidence ih =>
    obtain ⟨rows, hrows⟩ := upsertEvidence_frame e s
    show ∃ rows, (exec (upsertEvidence e >>= fun _ => evidence.forM upsertEvidence) s).2 = _
    rw [exec_bind]
    rcases hfirst : exec (upsertEvidence e) s with ⟨error | _, s₁⟩
    · rw [hfirst] at hrows
      exact ⟨rows, hrows⟩
    · rw [hfirst] at hrows
      have hs₁ : s₁ = { s with evidence := rows } := hrows
      obtain ⟨rows', hrows'⟩ := ih s₁
      exact ⟨rows', by rw [hrows', hs₁]⟩

/-- An event that is refused changes nothing; any other replaces the row of its id. -/
theorem upsertEvent_cases (event : StructuredEvent) (s : EventTables) :
    (exec (upsertEvent event) s).2 = s ∨
      validateEvidenceCoverage event = .ok () ∧ ∃ rows, (exec (upsertEvent event) s).2 =
        { s with
          events := Table.upsert (·.eventId) { event with evidence := [] } s.events
          evidence := rows } := by
  unfold upsertEvent
  cases hvalid : validateEvidenceCoverage event with
  | error e => exact .inl rfl
  | ok u =>
    have hvalidate : exec (ExceptT.mk (pure (.ok u)) : Prog EventTables EventError Unit) s =
        (.ok u, s) := rfl
    rw [exec_bind_ok hvalidate, exec_bind_ok (exec_get s), exec_guardOr_bind]
    split
    · refine .inr ⟨rfl, ?_⟩
      rw [exec_bind_ok (exec_set _ s)]
      obtain ⟨rows, hrows⟩ := forM_upsertEvidence_frame event.evidence
        { s with events := Table.upsert (·.eventId) { event with evidence := [] } s.events }
      refine ⟨rows, ?_⟩
      rw [exec_bind]
      rcases hforM : exec (event.evidence.forM upsertEvidence) _ with ⟨error | _, s₁⟩
      · rw [hforM] at hrows
        exact hrows
      · rw [hforM] at hrows
        exact hrows
    · exact .inl rfl

/-- The transition that a call makes from the stored lifecycle. -/
def madeTransition (shortHash : String → String) (eventId : String) (current next : EventLifecycle)
    (reason : String) (evidenceId : Option String) (transitionedAt : ℤ) : EventStateTransition where
  transitionId := transitionId shortHash eventId next transitionedAt
  eventId := eventId
  fromStatus := current
  toStatus := next
  reason := reason
  evidenceId := evidenceId
  transitionedAt := transitionedAt

def EventTables.lifecycleOf (s : EventTables) (eventId : String) : Option EventLifecycle :=
  (Table.find (·.eventId) eventId s.events).map (·.lifecycle)

/-- A transition is refused and changes nothing, or it is allowed, and sets the lifecycle. -/
theorem transition_cases (shortHash : String → String) (eventId : String) (next : EventLifecycle) (reason : String)
    (evidenceId : Option String) (transitionedAt : ℤ) (s : EventTables) :
    (∃ error, exec (EventTables.transition shortHash eventId next reason evidenceId transitionedAt) s =
      (.error error, s)) ∨
    ∃ current t, s.lifecycleOf eventId = some current ∧ current.canTransitionTo next = true ∧
      t = madeTransition shortHash eventId current next reason evidenceId transitionedAt ∧
      exec (EventTables.transition shortHash eventId next reason evidenceId transitionedAt) s =
        (.ok t, setLifecycle eventId next
          { s with
            transitions := if s.transitions.any fun row => row.transitionId = t.transitionId then
              s.transitions else s.transitions ++ [t] }) := by
  unfold EventTables.transition
  rw [exec_bind_ok (exec_get s)]
  cases hevent : s.event eventId with
  | none => exact .inl ⟨_, rfl⟩
  | some current =>
    dsimp only
    rw [exec_guardOr_bind]
    by_cases hallowed : current.lifecycle.canTransitionTo next = true
    swap
    · exact .inl ⟨_, by rw [if_neg hallowed]⟩
    rw [if_pos hallowed, exec_guardOr_bind]
    split
    swap
    · exact .inl ⟨_, rfl⟩
    have hlifecycle : s.lifecycleOf eventId = some current.lifecycle := by
      unfold EventTables.event at hevent
      obtain ⟨stored, hstored, rfl⟩ := Option.map_eq_some_iff.1 hevent
      unfold EventTables.lifecycleOf
      rw [hstored]
      rfl
    set t := madeTransition shortHash eventId current.lifecycle next reason evidenceId transitionedAt
      with ht
    by_cases hpresent : (s.transitions.any fun row => row.transitionId = t.transitionId) = true
    · refine .inr ⟨_, t, hlifecycle, hallowed, rfl, ?_⟩
      have hinsert : exec (insertTransition t) s = (.ok (), s) := by
        unfold insertTransition
        rw [exec_bind_ok (exec_get s), if_pos hpresent]
        rfl
      rw [if_pos hpresent]
      exact (exec_bind_ok hinsert).trans rfl
    · by_cases hevidence :
        (t.evidenceId.all fun id => s.evidence.any fun row => row.evidenceId = id) = true
      · refine .inr ⟨_, t, hlifecycle, hallowed, rfl, ?_⟩
        have hinsert : exec (insertTransition t) s =
            (.ok (), { s with transitions := s.transitions ++ [t] }) := by
          unfold insertTransition
          rw [exec_bind_ok (exec_get s), if_neg hpresent, exec_guardOr_bind, if_pos hevidence]
          rfl
        rw [if_neg hpresent]
        exact (exec_bind_ok hinsert).trans rfl
      · refine .inl ⟨.constraint "event_state_transitions", ?_⟩
        have hinsert : exec (insertTransition t) s =
            (.error (.constraint "event_state_transitions"), s) := by
          unfold insertTransition
          rw [exec_bind_ok (exec_get s), if_neg hpresent, exec_guardOr_bind, if_neg hevidence]
        exact exec_bind_error hinsert

/-- **What a call does**: nothing, or it replaces the row of an event, or it sets a lifecycle and
records that, unless the id of the transition is taken. -/
theorem step_cases (shortHash : String → String) (s : EventTables) (call : EventCall) :
    (s.step shortHash call = s ∧ s.accepted shortHash call = none) ∨
    (∃ event rows, call = .upsertEvent event ∧ validateEvidenceCoverage event = .ok () ∧
      s.accepted shortHash call = none ∧ s.step shortHash call =
        { s with
          events := Table.upsert (·.eventId) { event with evidence := [] } s.events
          evidence := rows }) ∨
    ∃ eventId next reason evidenceId transitionedAt current t,
      call = .transition eventId next reason evidenceId transitionedAt ∧
      s.lifecycleOf eventId = some current ∧ current.canTransitionTo next = true ∧
      t = madeTransition shortHash eventId current next reason evidenceId transitionedAt ∧
      s.accepted shortHash call = some t ∧ s.step shortHash call = setLifecycle eventId next
        { s with
          transitions := if s.transitions.any fun row => row.transitionId = t.transitionId then
            s.transitions else s.transitions ++ [t] } := by
  cases call with
  | upsertEvent event =>
    have hstep : s.step shortHash (.upsertEvent event) = (exec (upsertEvent event) s).2 := by
      unfold EventTables.step EventCall.prog
      rw [exec_bind]
      rcases exec (upsertEvent event) s with ⟨error | _, s₁⟩ <;> rfl
    have haccepted : s.accepted shortHash (.upsertEvent event) = none := by
      unfold EventTables.accepted EventCall.prog
      rw [exec_bind]
      rcases exec (upsertEvent event) s with ⟨error | _, s₁⟩ <;> rfl
    rw [hstep]
    rcases upsertEvent_cases event s with hsame | ⟨hvalid, rows, hrows⟩
    · exact .inl ⟨hsame, haccepted⟩
    · exact .inr (.inl ⟨event, rows, rfl, hvalid, haccepted, hrows⟩)
  | transition eventId next reason evidenceId transitionedAt =>
    unfold EventTables.step EventTables.accepted EventCall.prog
    rcases transition_cases shortHash eventId next reason evidenceId transitionedAt s with
      ⟨error, herror⟩ | ⟨current, t, hcurrent, hallowed, ht, hok⟩
    · rw [exec_bind_error herror]
      exact .inl ⟨rfl, rfl⟩
    · rw [exec_bind_ok hok]
      exact .inr (.inr ⟨eventId, next, reason, evidenceId, transitionedAt, current, t, rfl, hcurrent,
        hallowed, ht, rfl, rfl⟩)

/-! ## The stored lifecycle -/

theorem lifecycleOf_upsert (event : StructuredEvent) (rows : List EventFieldEvidence)
    (eventId : String) :
    EventTables.lifecycleOf
        { s with
          events := Table.upsert (·.eventId) { event with evidence := [] } s.events
          evidence := rows } eventId =
      if eventId = event.eventId then some event.lifecycle else s.lifecycleOf eventId := by
  unfold EventTables.lifecycleOf
  by_cases h : eventId = event.eventId
  · have hfind := @Table.find_upsert_self _ _ _ StructuredEvent.eventId { event with evidence := [] }
      s.events
    rw [if_pos h, h]
    exact congrArg (Option.map StructuredEvent.lifecycle) hfind
  · have hfind : Table.find StructuredEvent.eventId eventId
        (Table.upsert StructuredEvent.eventId { event with evidence := [] } s.events) =
        Table.find StructuredEvent.eventId eventId s.events := Table.find_upsert_of_ne h
    rw [if_neg h, hfind]

theorem lifecycleOf_setLifecycle (eventId other : String) (next : EventLifecycle)
    (transitions : List EventStateTransition) :
    EventTables.lifecycleOf (setLifecycle eventId next { s with transitions := transitions }) other =
      if other = eventId then (s.lifecycleOf other).map fun _ => next else s.lifecycleOf other := by
  unfold EventTables.lifecycleOf setLifecycle
  by_cases h : other = eventId
  · subst h
    have hfind : Table.find StructuredEvent.eventId other (Table.update StructuredEvent.eventId other
        (fun event => { event with lifecycle := next }) s.events) =
        (Table.find StructuredEvent.eventId other s.events).map fun event =>
          { event with lifecycle := next } := Table.find_update_self fun _ => rfl
    rw [if_pos rfl, hfind, Option.map_map, Option.map_map]
    rfl
  · have hfind : Table.find StructuredEvent.eventId other (Table.update StructuredEvent.eventId eventId
        (fun event => { event with lifecycle := next }) s.events) =
        Table.find StructuredEvent.eventId other s.events := Table.find_update_of_ne (fun _ => rfl) h
    rw [if_neg h, hfind]

/-! ## Orderly calls -/

/-- An event that is stored is not extracted again with another lifecycle, and an allowed
transition has an id of its own and is not earlier than those of its event before it. -/
def Orderly (shortHash : String → String) (s : EventTables) : EventCall → Prop
  | .upsertEvent event => validateEvidenceCoverage event = .ok () →
      ∀ stored ∈ s.lifecycleOf event.eventId, stored = event.lifecycle
  | .transition eventId next _ _ transitionedAt =>
    (∃ current ∈ s.lifecycleOf eventId, current.canTransitionTo next = true) →
      (∀ t ∈ s.transitions, t.transitionId ≠ transitionId shortHash eventId next transitionedAt) ∧
        ∀ t ∈ s.transitions, t.eventId = eventId → t.transitionedAt ≤ transitionedAt

instance (s : EventTables) : ∀ call, Decidable (Orderly shortHash s call)
  | .upsertEvent _ => inferInstanceAs (Decidable (_ → ∀ stored ∈ _, _))
  | .transition _ _ _ _ _ => inferInstanceAs (Decidable ((∃ current ∈ _, _) → _ ∧ _))

/-- Every change of a lifecycle is allowed, and recorded by a new row. -/
def Audited (s s' : EventTables) : Prop :=
  ∀ eventId before after, s.lifecycleOf eventId = some before → s'.lifecycleOf eventId = some after →
    before ≠ after → before.canTransitionTo after = true ∧
      ∃ t, s'.transitions = s.transitions ++ [t] ∧ t.eventId = eventId ∧ t.fromStatus = before ∧
        t.toStatus = after

/-- Each transition goes on from the one before it, and the last leads to `current`. -/
def Chained (current : EventLifecycle) (ts : List EventStateTransition) : Prop :=
  ts.IsChain (fun t u => u.fromStatus = t.toStatus) ∧ ∀ t ∈ ts.getLast?, t.toStatus = current

/-- The transitions that were accepted along some calls. -/
def acceptedAlong (shortHash : String → String) (s : EventTables) :
    List EventCall → List EventStateTransition
  | [] => []
  | call :: calls =>
    (s.accepted shortHash call).toList ++ acceptedAlong shortHash (s.step shortHash call) calls

/-- The rows of an event. -/
def EventTables.transitionsOf (s : EventTables) (eventId : String) : List EventStateTransition :=
  s.transitions.filter fun t => t.eventId = eventId

/-- What orderly calls keep. -/
structure Tidy (s : EventTables) : Prop where
  sorted : ∀ eventId, (s.transitionsOf eventId).Pairwise fun a b => a.transitionedAt ≤ b.transitionedAt
  known : ∀ t ∈ s.transitions, (s.lifecycleOf t.eventId).isSome = true
  chained : ∀ eventId current, s.lifecycleOf eventId = some current →
    Chained current (s.transitionsOf eventId)

theorem transitionsOf_append (t : EventStateTransition) (eventId : String)
    (h : s'.transitions = s.transitions ++ [t]) :
    s'.transitionsOf eventId = s.transitionsOf eventId ++ if t.eventId = eventId then [t] else [] := by
  unfold EventTables.transitionsOf
  rw [h, List.filter_append]
  by_cases ht : t.eventId = eventId <;> simp [ht]

/-- **An orderly call** changes lifecycles as it may, and records what it accepts. -/
theorem orderly_step (h : Tidy s) (hcall : Orderly shortHash s call) :
    Tidy (s.step shortHash call) ∧ Audited s (s.step shortHash call) ∧
      (s.step shortHash call).transitions = s.transitions ++ (s.accepted shortHash call).toList := by
  rcases step_cases shortHash s call with ⟨hstep, hnone⟩ | ⟨event, rows, rfl, hvalid, hnone, hstep⟩ |
    ⟨eventId, next, reason, evidenceId, transitionedAt, current, t, rfl, hcurrent, hallowed, rfl,
      hsome, hstep⟩
  · rw [hstep, hnone]
    refine ⟨h, fun eventId before after hbefore hafter hne => ?_, (List.append_nil _).symm⟩
    exact absurd (Option.some.inj (hbefore.symm.trans hafter)) hne
  · -- an event that was stored keeps its lifecycle; one that was not has no transitions
    have hkept : ∀ eventId before, s.lifecycleOf eventId = some before →
        (s.step shortHash (.upsertEvent event)).lifecycleOf eventId = some before := by
      intro eventId before hbefore
      rw [hstep, lifecycleOf_upsert]
      by_cases hid : eventId = event.eventId
      · rw [if_pos hid]
        rw [hid] at hbefore
        rw [hcall hvalid before hbefore]
      · rw [if_neg hid, hbefore]
    have hrows : (s.step shortHash (.upsertEvent event)).transitions = s.transitions := by rw [hstep]
    have hof : ∀ eventId, (s.step shortHash (.upsertEvent event)).transitionsOf eventId =
        s.transitionsOf eventId := fun eventId => by
      unfold EventTables.transitionsOf
      rw [hrows]
    refine ⟨⟨fun eventId => ?_, fun t ht => ?_, fun eventId current hcurrent => ?_⟩, ?_, ?_⟩
    · rw [hof]
      exact h.sorted eventId
    · rw [hrows] at ht
      obtain ⟨before, hbefore⟩ := Option.isSome_iff_exists.1 (h.known t ht)
      rw [hkept _ _ hbefore]
      rfl
    · rw [hof]
      cases hbefore : s.lifecycleOf eventId with
      | some before =>
        obtain rfl := Option.some.inj ((hkept _ _ hbefore).symm.trans hcurrent)
        exact h.chained eventId _ hbefore
      | none =>
        have hnil : s.transitionsOf eventId = [] := by
          refine List.filter_eq_nil_iff.2 fun t ht hid => ?_
          have hknown := h.known t ht
          rw [of_decide_eq_true hid, hbefore] at hknown
          simp at hknown
        rw [hnil]
        exact ⟨.nil, fun t ht => by simp at ht⟩
    · intro eventId before after hbefore hafter hne
      exact absurd (Option.some.inj ((hkept _ _ hbefore).symm.trans hafter)) hne
    · rw [hrows, hnone]
      exact (List.append_nil _).symm
  · set t := madeTransition shortHash eventId current next reason evidenceId transitionedAt with ht
    obtain ⟨hfresh, hlate⟩ := hcall ⟨current, hcurrent, hallowed⟩
    have hpresent : ¬ (s.transitions.any fun row => row.transitionId = t.transitionId) = true := by
      intro hany
      obtain ⟨row, hrow, hid⟩ := List.any_eq_true.1 hany
      exact hfresh row hrow (of_decide_eq_true hid)
    rw [if_neg hpresent] at hstep
    have hrows : (s.step shortHash (.transition eventId next reason evidenceId
        transitionedAt)).transitions = s.transitions ++ [t] := by
      rw [hstep]
      rfl
    have hlifecycle : ∀ other, (s.step shortHash (.transition eventId next reason evidenceId
        transitionedAt)).lifecycleOf other =
        if other = eventId then some next else s.lifecycleOf other := by
      intro other
      rw [hstep, lifecycleOf_setLifecycle]
      by_cases hid : other = eventId
      · rw [if_pos hid, if_pos hid, hid, hcurrent]
        rfl
      · rw [if_neg hid, if_neg hid]
    have hof := fun other => transitionsOf_append t other hrows
    refine ⟨⟨fun other => ?_, fun u hu => ?_, fun other after hafter => ?_⟩, ?_, ?_⟩
    · rw [hof]
      by_cases hid : t.eventId = other
      · rw [if_pos hid, List.pairwise_append]
        refine ⟨h.sorted other, List.pairwise_singleton _ _, fun a ha b hb => ?_⟩
        obtain ⟨ha, haid⟩ := List.mem_filter.1 ha
        rw [List.mem_singleton.1 hb]
        exact hlate a ha ((of_decide_eq_true haid).trans hid.symm)
      · rw [if_neg hid, List.append_nil]
        exact h.sorted other
    · rw [hlifecycle]
      split
      · rfl
      · rename_i hid
        rw [hrows] at hu
        rcases List.mem_append.1 hu with hu | hu
        · exact h.known u hu
        · rw [List.mem_singleton.1 hu] at hid
          exact absurd rfl hid
    · rw [hof]
      rw [hlifecycle] at hafter
      by_cases hid : other = eventId
      · -- the new row goes on from the stored lifecycle, which the last row before it led to
        subst hid
        rw [if_pos rfl] at hafter
        obtain rfl := Option.some.inj hafter
        obtain ⟨hchain, hlast⟩ := h.chained other current hcurrent
        rw [if_pos (show t.eventId = other from rfl)]
        refine ⟨List.isChain_append.2 ⟨hchain, .singleton _, fun a ha b hb => ?_⟩, fun b hb => ?_⟩
        · obtain rfl := Option.some.inj hb
          exact (hlast a ha).symm
        · rw [List.getLast?_append] at hb
          obtain rfl := Option.some.inj hb
          rfl
      · rw [if_neg hid] at hafter
        rw [if_neg (show ¬ t.eventId = other from fun heq => hid heq.symm), List.append_nil]
        exact h.chained other after hafter
    · intro other before after hbefore hafter hne
      rw [hlifecycle] at hafter
      by_cases hid : other = eventId
      · subst hid
        rw [if_pos rfl] at hafter
        obtain rfl := Option.some.inj hafter
        obtain rfl := Option.some.inj (hcurrent.symm.trans hbefore)
        exact ⟨hallowed, t, hrows, rfl, rfl, rfl⟩
      · rw [if_neg hid] at hafter
        exact absurd (Option.some.inj (hbefore.symm.trans hafter)) hne
    · rw [hrows, hsome]
      rfl

theorem Tidy.timeline (h : Tidy s) (eventId : String) : s.timeline eventId = s.transitionsOf eventId :=
  (h.sorted eventId).insertionSort_eq

/-! ## Runs -/

theorem tidy_empty : Tidy {} where
  sorted := fun _ => .nil
  known := fun t ht => by simp at ht
  chained := fun _ _ h => by simp [EventTables.lifecycleOf, Table.find] at h

/-- Along orderly calls, the accepted transitions are recorded in order. -/
theorem transitions_run (calls : List EventCall) : ∀ (s : EventTables), Tidy s →
    Run.Along (EventTables.step shortHash) (Orderly shortHash) s calls →
    (Run.run (EventTables.step shortHash) s calls).transitions =
      s.transitions ++ acceptedAlong shortHash s calls := by
  induction calls with
  | nil => intro s _ _; exact (List.append_nil _).symm
  | cons call calls ih =>
    intro s h hcalls
    obtain ⟨htidy, -, hrows⟩ := orderly_step h hcalls.1
    rw [Run.run_cons, ih _ htidy hcalls.2, hrows, List.append_assoc]
    rfl

/-- **The lifecycle of an event is audited** in every run of orderly calls: every change is allowed
and recorded, the timeline is the list of the accepted transitions, and these form a chain that
leads to the stored lifecycle. -/
theorem lifecycle_audited (shortHash : String → String) (calls : List EventCall)
    (h : Run.Along (EventTables.step shortHash) (Orderly shortHash) {} calls) :
    Run.Along (EventTables.step shortHash) (fun s call => Audited s (s.step shortHash call)) {}
      calls ∧
    ∀ eventId, (Run.run (EventTables.step shortHash) {} calls).timeline eventId =
        (acceptedAlong shortHash {} calls).filter (fun t => t.eventId = eventId) ∧
      ∀ current, (Run.run (EventTables.step shortHash) {} calls).lifecycleOf eventId = some current →
        Chained current ((Run.run (EventTables.step shortHash) {} calls).timeline eventId) := by
  have hstep : ∀ s call, Orderly shortHash s call → Tidy s → Tidy (s.step shortHash call) :=
    fun s call hcall hs => (orderly_step hs hcall).1
  have htidy := Run.run_invariant_along hstep calls {} h tidy_empty
  refine ⟨Run.along_of_invariant hstep (fun s call hcall hs => (orderly_step hs hcall).2.1) calls {} h
    tidy_empty, fun eventId => ?_⟩
  rw [htidy.timeline]
  refine ⟨?_, fun current hcurrent => htidy.chained eventId current hcurrent⟩
  unfold EventTables.transitionsOf
  rw [transitions_run calls {} tidy_empty h]
  rfl

/-! ## An event that is extracted again -/

/-- The evidence that every event needs. -/
def sampleEvidence (eventId revisionId : String) : List EventFieldEvidence :=
  ["title", "kind", "lifecycle", "reversibility", "impact_horizon", "catalyst_path",
    "invalidation_conditions"].map fun field =>
    { evidenceId := field
      eventId := eventId
      fieldName := field
      provenance := .observedFact
      sourceRevisionId := some revisionId
      quoteOriginal := some "合同履行"
      confidenceBps := 9000 }

def sampleEvent : StructuredEvent where
  eventId := "evt"
  sourceRevisionId := "rev"
  lifecycle := .confirmed
  evidence := sampleEvidence "evt" "rev"

def completeOrder : EventCall := .transition "evt" .completed "合同履行完毕公告" (some "title") 1790000000

theorem completedOrder_audited :
    Run.Along (EventTables.step id) (fun s call => Audited s (s.step id call)) {}
      [.upsertEvent sampleEvent, completeOrder] ∧
    ∀ eventId, (Run.run (EventTables.step id) {} [.upsertEvent sampleEvent, completeOrder]).timeline
          eventId =
        (acceptedAlong id {} [.upsertEvent sampleEvent, completeOrder]).filter
          (fun t => t.eventId = eventId) ∧
      ∀ current, (Run.run (EventTables.step id) {}
          [.upsertEvent sampleEvent, completeOrder]).lifecycleOf eventId = some current →
        Chained current ((Run.run (EventTables.step id) {}
          [.upsertEvent sampleEvent, completeOrder]).timeline eventId) :=
  lifecycle_audited id _ (by decide)

/-- **A completed event that is extracted again** is confirmed again, and nothing records it. -/
theorem reextracted_unaudited :
    ¬ ∀ (shortHash : String → String) (calls : List EventCall),
      Run.Along (EventTables.step shortHash) (fun s call => Audited s (s.step shortHash call)) {}
        calls := by
  intro h
  obtain ⟨-, -, hagain, -⟩ := h id [.upsertEvent sampleEvent, completeOrder, .upsertEvent sampleEvent]
  have hallowed := (hagain "evt" .completed .confirmed (by decide +kernel) (by decide +kernel)
    (by decide)).1
  exact absurd hallowed (by decide)

end Astock
