import Astock.Lib.Run
import Astock.Spec.EventRows

/-!
# Reading an event back

* `upsertEvidence_cases`, `evidence_written`: what is written of the evidence of an event.
* `upsertEvent_ok`: the tables after a call that succeeds.
* `upsertEvent_error`: a call that fails is refused before its first write, or has written the row of
  the event.
* `evidenceIds_nodup`: in every run the rows of evidence have different ids.
* `readsBack_iff`: what is read back after a call that succeeds.
* `stored_event_reads_back`: **an accepted event is read back as it was written exactly when nothing
  else was stored for it, and a call that fails leaves what was stored when it is refused before its
  first write.**
-/

namespace Astock.EventIntelligence

open Prog

variable {reread : Json → Json} {shortHash : String → String} {now : ℤ} {s s' : EventRows}
  {event : StructuredEvent} {rows : List EventFieldEvidence} {row : EventFieldEvidence}
  {error : EventError}

/-! ## Writing evidence -/

theorem key_updated (old row : EventFieldEvidence) (h : old.evidenceId = row.evidenceId) :
    (EventFieldEvidence.updated old row).evidenceId = row.evidenceId := h

theorem eventId_updated (old event : StructuredEvent) (_ : old.eventId = event.eventId) :
    (StructuredEvent.updated old event).eventId = event.eventId := rfl

/-- The evidence after rows are put into it. -/
def written (rows evidence : List EventFieldEvidence) : List EventFieldEvidence :=
  Table.upsertEach (·.evidenceId) EventFieldEvidence.updated rows evidence

/-- A row is refused and nothing changes, or it is put into the table. -/
theorem upsertEvidence_cases (row : EventFieldEvidence) (s : EventRows) :
    exec (upsertEvidence row) s = (.error (.constraint "event_field_evidence"), s) ∨
      exec (upsertEvidence row) s = (.ok (), { s with evidence := written [row] s.evidence }) := by
  unfold upsertEvidence
  rw [exec_bind_ok (exec_get s), exec_guardOr_bind]
  split
  · exact .inr rfl
  · exact .inl rfl

/-- **The evidence of an event** is put into the table row by row, up to the first that is refused. -/
theorem evidence_written (rows : List EventFieldEvidence) (s : EventRows) :
    (∃ error front, front <+: rows ∧ exec (rows.forM upsertEvidence) s =
      (.error error, { s with evidence := written front s.evidence })) ∨
      exec (rows.forM upsertEvidence) s = (.ok (), { s with evidence := written rows s.evidence }) := by
  induction rows generalizing s with
  | nil => exact .inr rfl
  | cons row rows ih =>
    change (∃ error front, front <+: row :: rows ∧
      exec (upsertEvidence row >>= fun _ => rows.forM upsertEvidence) s = _) ∨
      exec (upsertEvidence row >>= fun _ => rows.forM upsertEvidence) s = _
    rcases upsertEvidence_cases row s with hrow | hrow
    · exact .inl ⟨_, [], List.nil_prefix, exec_bind_error hrow⟩
    · rw [exec_bind_ok hrow]
      rcases ih { s with evidence := written [row] s.evidence } with ⟨error, front, hfront, h⟩ | h
      · exact .inl ⟨error, row :: front, List.cons_prefix_cons.2 ⟨rfl, hfront⟩, h⟩
      · exact .inr h

/-! ## Writing an event -/

/-- A call that is refused before its first write. -/
def Refused (s : EventRows) (event : StructuredEvent) : Prop :=
  (∃ error, validateEvidenceCoverage event.outline = .error error) ∨ s.revisionTaken event = true

/-- The tables after the row of an event and some of its evidence are written. -/
def EventRows.put (s : EventRows) (now : ℤ) (event : StructuredEvent)
    (rows : List EventFieldEvidence) : EventRows :=
  { s with
    events := Table.upsertWith (·.eventId) StructuredEvent.updated (event.row now) s.events
    evidence := written rows s.evidence }

/-- **What a call does**: nothing if it is refused; else it writes the row of the event and the rows of
its evidence, up to the first that is refused. -/
theorem upsertEvent_cases (now : ℤ) (event : StructuredEvent) (s : EventRows) :
    (Refused s event ∧ ∃ error, exec (upsertEvent now event) s = (.error error, s)) ∨
    (¬ Refused s event ∧ ∃ error front, front <+: event.evidence ∧
      exec (upsertEvent now event) s = (.error error, s.put now event front)) ∨
    (¬ Refused s event ∧
      exec (upsertEvent now event) s = (.ok event.eventId, s.put now event event.evidence)) := by
  unfold upsertEvent
  cases hvalid : validateEvidenceCoverage event.outline with
  | error e => exact .inl ⟨.inl ⟨e, hvalid⟩, e, rfl⟩
  | ok u =>
    have hvalidate : exec (ExceptT.mk (pure (.ok u)) : Prog EventRows EventError Unit) s =
        (.ok u, s) := rfl
    rw [exec_bind_ok hvalidate, exec_bind_ok (exec_get s), exec_guardOr_bind]
    cases htaken : s.revisionTaken event with
    | true => exact .inl ⟨.inr htaken, _, rfl⟩
    | false =>
      have hnot : ¬ Refused s event := by
        rintro (⟨e, he⟩ | h)
        · rw [hvalid] at he
          cases he
        · rw [htaken] at h
          cases h
      rw [if_pos (by rfl), exec_bind_ok (exec_set _ s)]
      rcases evidence_written event.evidence { s with
        events := Table.upsertWith (·.eventId) StructuredEvent.updated (event.row now) s.events }
        with ⟨error, front, hfront, h⟩ | h
      · exact .inr (.inl ⟨hnot, error, front, hfront, exec_bind_error h⟩)
      · exact .inr (.inr ⟨hnot, exec_bind_ok h⟩)

theorem upsertEvent_ok {id : String} (h : exec (upsertEvent now event) s = (.ok id, s')) :
    s' = s.put now event event.evidence := by
  rcases upsertEvent_cases now event s with ⟨-, e, hcase⟩ | ⟨-, e, front, -, hcase⟩ | ⟨-, hcase⟩
  · rw [hcase] at h
    cases h
  · rw [hcase] at h
    cases h
  · rw [hcase] at h
    exact (Prod.mk.inj h).2.symm

theorem upsertEvent_error (h : exec (upsertEvent now event) s = (.error error, s')) :
    (Refused s event ∧ s' = s) ∨ (¬ Refused s event ∧ ∃ front, s' = s.put now event front) := by
  rcases upsertEvent_cases now event s with ⟨href, e, hcase⟩ | ⟨hnot, e, front, -, hcase⟩ | ⟨-, hcase⟩
  · rw [hcase] at h
    exact .inl ⟨href, (Prod.mk.inj h).2.symm⟩
  · rw [hcase] at h
    exact .inr ⟨hnot, front, (Prod.mk.inj h).2.symm⟩
  · rw [hcase] at h
    cases h

/-! ## Reachable stores -/

/-- The store after a list of calls. -/
def reached (reread : Json → Json) (shortHash : String → String) (calls : List RowCall) : EventRows :=
  Run.run (EventRows.step reread shortHash) {} calls

def EvidenceIds (s : EventRows) : Prop := (s.evidence.map (·.evidenceId)).Nodup

theorem evidenceIds_put (h : EvidenceIds s) (rows : List EventFieldEvidence) :
    EvidenceIds (s.put now event rows) :=
  Table.nodup_upsertEach h

/-- A transition writes no evidence. -/
theorem transition_evidence (eventId : String) (next : EventLifecycle) (reason : String)
    (evidenceId : Option String) (transitionedAt : ℤ) (s : EventRows) :
    (exec (EventRows.transition reread shortHash eventId next reason evidenceId transitionedAt) s).2.evidence =
      s.evidence := by
  have hinsert : ∀ (t : EventStateTransition) (s : EventRows),
      (exec (insertTransition t) s).2.evidence = s.evidence := by
    intro t s
    unfold insertTransition
    rw [exec_bind_ok (exec_get s)]
    split
    · rfl
    · rw [exec_guardOr_bind]
      split <;> rfl
  unfold EventRows.transition
  rw [exec_bind_ok (exec_get s)]
  cases s.event reread eventId with
  | none => rfl
  | some current =>
    dsimp only
    rw [exec_guardOr_bind]
    split
    swap
    · rfl
    rw [exec_guardOr_bind]
    split
    swap
    · rfl
    rw [exec_bind]
    have h := hinsert
      { transitionId := transitionId shortHash eventId next transitionedAt
        eventId := eventId
        fromStatus := current.lifecycle
        toStatus := next
        reason := reason
        evidenceId := evidenceId
        transitionedAt := transitionedAt } s
    rcases hexec : exec (insertTransition _) s with ⟨e | u, s₁⟩
    · rw [hexec] at h
      exact h
    · rw [hexec] at h
      exact h

/-- **In every run** the rows of evidence have different ids. -/
theorem evidenceIds_nodup (calls : List RowCall) : EvidenceIds (reached reread shortHash calls) := by
  refine Run.run_invariant (I := EvidenceIds) (fun s call hs => ?_) calls _ List.nodup_nil
  cases call with
  | upsertEvent now event =>
    rcases upsertEvent_cases now event s with ⟨-, e, h⟩ | ⟨-, e, front, -, h⟩ | ⟨-, h⟩
    · rw [EventRows.step, h]
      exact hs
    · rw [EventRows.step, h]
      exact evidenceIds_put hs front
    · rw [EventRows.step, h]
      exact evidenceIds_put hs event.evidence
  | transition eventId next reason evidenceId transitionedAt =>
    rw [EventRows.step, EvidenceIds, transition_evidence]
    exact hs

/-! ## Reading back -/

/-- The event is read back as it was written, up to the order of its evidence and the time of the
update. -/
def ReadsBack (reread : Json → Json) (s : EventRows) (event : StructuredEvent) : Prop :=
  ∃ stored, s.event reread event.eventId = some stored ∧
    { stored with evidence := event.evidence, updatedAt := event.updatedAt } = event ∧
    stored.evidence.Perm event.evidence

/-- A row of evidence as it is read. -/
def EventFieldEvidence.asRead (reread : Json → Json) (row : EventFieldEvidence) : EventFieldEvidence :=
  { row with location := reread row.location }

/-- What an upsert does not write over agrees with the row. -/
structure SameOrigin (old row : EventFieldEvidence) : Prop where
  eventId : old.eventId = row.eventId
  fieldName : old.fieldName = row.fieldName
  provenance : old.provenance = row.provenance
  sourceRevisionId : old.sourceRevisionId = row.sourceRevisionId
  sourceVersionId : old.sourceVersionId = row.sourceVersionId

/-- Nothing else is stored for an event than its rows. -/
structure EvidenceFits (reread : Json → Json) (evidence : List EventFieldEvidence) (eventId : String)
    (rows : List EventFieldEvidence) : Prop where
  /-- No id is given twice. -/
  distinct : (rows.map (·.evidenceId)).Nodup
  own : ∀ row ∈ rows, row.eventId = eventId
  /-- The locations survive serialization. -/
  location : ∀ row ∈ rows, reread row.location = row.location
  /-- A row that is there already is of the same origin. -/
  origin : ∀ row ∈ rows, ∀ old, Table.find (·.evidenceId) row.evidenceId evidence = some old →
    SameOrigin old row
  /-- No row of an earlier extraction is left. -/
  covered : ∀ old ∈ evidence, old.eventId = eventId → old.evidenceId ∈ rows.map (·.evidenceId)

theorem updated_eq {old : EventFieldEvidence} (hid : old.evidenceId = row.evidenceId) :
    EventFieldEvidence.updated old row = row ↔ SameOrigin old row := by
  constructor
  · intro h
    rw [← h]
    exact ⟨rfl, rfl, rfl, rfl, rfl⟩
  · intro h
    obtain ⟨h₁, h₂, h₃, h₄, h₅⟩ := h
    cases old
    cases row
    simp only at hid h₁ h₂ h₃ h₄ h₅
    simp only [EventFieldEvidence.updated, hid, h₁, h₂, h₃, h₄, h₅]

/-- A row is stored as it is when what was there is of the same origin. -/
theorem merged_eq_iff {evidence : List EventFieldEvidence} :
    Table.merged (·.evidenceId) EventFieldEvidence.updated row evidence = row ↔
      ∀ old, Table.find (·.evidenceId) row.evidenceId evidence = some old → SameOrigin old row := by
  unfold Table.merged
  cases h : Table.find (·.evidenceId) row.evidenceId evidence with
  | none => exact ⟨fun _ old hold => (Option.some_ne_none old hold.symm).elim, fun _ => rfl⟩
  | some old =>
    have hid := Table.key_of_find h
    constructor
    · intro heq old' hold
      obtain rfl := Option.some.inj hold
      exact (updated_eq hid).1 heq
    · intro hall
      exact (updated_eq hid).2 (hall old rfl)

theorem location_merged (evidence : List EventFieldEvidence) :
    (Table.merged (·.evidenceId) EventFieldEvidence.updated row evidence).location = row.location := by
  unfold Table.merged
  split <;> rfl

theorem evidenceOf_perm (reread : Json → Json) (s : EventRows) (eventId : String) :
    (s.evidenceOf reread eventId).Perm
      ((s.evidence.filter fun row => row.eventId = eventId).map (EventFieldEvidence.asRead reread)) :=
  (List.perm_insertionSort _ _).map _

/-- **The evidence that is read back** is that of the call when nothing else is stored for the event. -/
theorem evidence_perm_iff {evidence : List EventFieldEvidence} {eventId : String}
    (hids : (evidence.map (·.evidenceId)).Nodup) :
    (((written rows evidence).filter fun row => row.eventId = eventId).map
        (EventFieldEvidence.asRead reread)).Perm rows ↔
      EvidenceFits reread evidence eventId rows := by
  have hstored : ((written rows evidence).map (·.evidenceId)).Nodup := Table.nodup_upsertEach hids
  set view := ((written rows evidence).filter fun row => row.eventId = eventId).map
    (EventFieldEvidence.asRead reread) with hview
  have hviewIds : (view.map (·.evidenceId)).Nodup := by
    have hkeep : view.map (·.evidenceId) =
        ((written rows evidence).filter fun row => row.eventId = eventId).map (·.evidenceId) := by
      rw [hview, List.map_map]
      rfl
    rw [hkeep]
    exact hstored.sublist (List.filter_sublist.map _)
  have hmem : ∀ x, x ∈ view ↔ ∃ t ∈ written rows evidence, t.eventId = eventId ∧
      EventFieldEvidence.asRead reread t = x := by
    intro x
    rw [hview, List.mem_map]
    refine exists_congr fun t => ?_
    rw [List.mem_filter, decide_eq_true_eq, and_assoc]
  constructor
  · intro hperm
    have hdistinct : (rows.map (·.evidenceId)).Nodup := (hperm.map _).nodup_iff.1 hviewIds
    have hput : ∀ t, t ∈ written rows evidence ↔ _ := fun t =>
      Table.mem_upsertEach key_updated hdistinct
    -- what is read of a row is what was stored for it
    have hrow : ∀ row ∈ rows, ∃ t, t =
        Table.merged (·.evidenceId) EventFieldEvidence.updated row evidence ∧
        t.eventId = eventId ∧ EventFieldEvidence.asRead reread t = row := by
      intro row hrow
      obtain ⟨t, ht, hown, hread⟩ := (hmem row).1 (hperm.mem_iff.2 hrow)
      have hid : t.evidenceId = row.evidenceId := by rw [← hread]; rfl
      rcases (hput t).1 ht with ⟨r, hr, heq⟩ | ⟨-, hnot⟩
      · have hsame : r.evidenceId = row.evidenceId := by
          rw [← hid, heq]
          exact (Table.key_merged key_updated r evidence).symm
        obtain rfl : r = row := List.inj_on_of_nodup_map hdistinct hr hrow hsame
        exact ⟨t, heq, hown, hread⟩
      · exact absurd (hid ▸ List.mem_map_of_mem hrow) hnot
    refine ⟨hdistinct, fun row hr => ?_, fun row hr => ?_, fun row hr => ?_, fun old hold hown => ?_⟩
    · obtain ⟨t, -, hown, hread⟩ := hrow row hr
      rw [← hread]
      exact hown
    · obtain ⟨t, ht, -, hread⟩ := hrow row hr
      have hlocation : reread t.location = row.location := congrArg (·.location) hread
      rwa [ht, location_merged] at hlocation
    · obtain ⟨t, ht, -, hread⟩ := hrow row hr
      have hlocation : t.location = row.location := by rw [ht, location_merged]
      have hlocation' : reread t.location = row.location := congrArg (·.location) hread
      have hsame : t = row := by
        rw [← hread]
        change t = { t with location := reread t.location }
        rw [hlocation', ← hlocation]
      exact merged_eq_iff.1 (ht.symm.trans hsame)
    · by_contra hnot
      have hin : old ∈ written rows evidence := (hput old).2 (.inr ⟨hold, hnot⟩)
      have hread := hperm.mem_iff.1 ((hmem _).2 ⟨old, hin, hown, rfl⟩)
      exact hnot (List.mem_map.2 ⟨_, hread, rfl⟩)
  · intro hfits
    have hput : ∀ t, t ∈ written rows evidence ↔ _ := fun t =>
      Table.mem_upsertEach key_updated hfits.distinct
    have hreread : ∀ row ∈ rows, EventFieldEvidence.asRead reread row = row := by
      intro row hrow
      change { row with location := reread row.location } = row
      rw [hfits.location row hrow]
    refine (List.perm_ext_iff_of_nodup hviewIds.of_map hfits.distinct.of_map).2 fun x => ?_
    rw [hmem]
    constructor
    · rintro ⟨t, ht, hown, rfl⟩
      rcases (hput t).1 ht with ⟨r, hr, rfl⟩ | ⟨hold, hnot⟩
      · rw [merged_eq_iff.2 (hfits.origin r hr), hreread r hr]
        exact hr
      · exact absurd (hfits.covered t hold hown) hnot
    · intro hx
      refine ⟨x, (hput x).2 (.inl ⟨x, hx, ?_⟩), hfits.own x hx, hreread x hx⟩
      exact (merged_eq_iff.2 (hfits.origin x hx)).symm

/-- The row of the event that a call writes. -/
def EventRows.writtenRow (s : EventRows) (now : ℤ) (event : StructuredEvent) : StructuredEvent :=
  Table.merged (·.eventId) StructuredEvent.updated (event.row now) s.events

theorem event_put (s : EventRows) (now : ℤ) (event : StructuredEvent)
    (rows : List EventFieldEvidence) :
    (s.put now event rows).event reread event.eventId =
      some { s.writtenRow now event with
        evidence := (s.put now event rows).evidenceOf reread event.eventId } := by
  have hfind : Table.find (·.eventId) event.eventId (s.put now event rows).events =
      some (s.writtenRow now event) :=
    Table.find_upsertWith_self eventId_updated (event.row now) s.events
  rw [EventRows.event, hfind]
  rfl

/-- Nothing was stored that changes what is read back of an event. -/
structure NothingElseStored (reread : Json → Json) (s : EventRows) (event : StructuredEvent) :
    Prop where
  /-- The time of creation of a stored event is kept. -/
  createdAt : ∀ old, Table.find (·.eventId) event.eventId s.events = some old →
    old.createdAt = event.createdAt
  evidence : EvidenceFits reread s.evidence event.eventId event.evidence

theorem writtenRow_iff :
    { s.writtenRow now event with evidence := event.evidence, updatedAt := event.updatedAt } = event ↔
      ∀ old, Table.find (·.eventId) event.eventId s.events = some old →
        old.createdAt = event.createdAt := by
  cases hfind : Table.find (·.eventId) event.eventId s.events with
  | none =>
    have hwritten : s.writtenRow now event = event.row now := Table.merged_of_none hfind
    rw [hwritten]
    exact ⟨fun _ old hold => (Option.some_ne_none old hold.symm).elim, fun _ => rfl⟩
  | some old =>
    have hwritten : s.writtenRow now event = StructuredEvent.updated old (event.row now) :=
      Table.merged_of_some hfind
    rw [hwritten]
    constructor
    · intro h old' hold
      obtain rfl := Option.some.inj hold
      exact congrArg (·.createdAt) h
    · intro h
      have hcreated := h old rfl
      change { event with createdAt := old.createdAt } = event
      rw [hcreated]

/-- **What is read back** after a call that succeeds. -/
theorem readsBack_iff (hids : EvidenceIds s) :
    ReadsBack reread (s.put now event event.evidence) event ↔ NothingElseStored reread s event := by
  have hevidence : ((s.put now event event.evidence).evidenceOf reread event.eventId).Perm
      event.evidence ↔ EvidenceFits reread s.evidence event.eventId event.evidence := by
    rw [← evidence_perm_iff hids]
    have hperm := evidenceOf_perm reread (s.put now event event.evidence) event.eventId
    exact ⟨hperm.symm.trans, hperm.trans⟩
  constructor
  · rintro ⟨stored, hstored, hsame, hperm⟩
    rw [event_put] at hstored
    obtain rfl := Option.some.inj hstored
    exact ⟨writtenRow_iff.1 hsame, hevidence.1 hperm⟩
  · intro h
    exact ⟨_, event_put s now event event.evidence, writtenRow_iff.2 h.createdAt,
      hevidence.2 h.evidence⟩

/-- The very row that a call writes is there already, with the same time of its update. -/
def StoredAlready (s : EventRows) (now : ℤ) (event : StructuredEvent) : Prop :=
  ∃ old, Table.find (·.eventId) event.eventId s.events = some old ∧
    { old with evidence := [] } = { s.writtenRow now event with evidence := [] }

/-- **A stored event is read back** as it was written exactly when nothing else was stored for it. A
call that fails changes nothing when it is refused before its first write; otherwise the event is
changed, unless the same row was there already. -/
theorem stored_event_reads_back (reread : Json → Json) (shortHash : String → String)
    (calls : List RowCall) (now : ℤ) (event : StructuredEvent) :
    (∀ id s', exec (upsertEvent now event) (reached reread shortHash calls) = (.ok id, s') →
      (ReadsBack reread s' event ↔
        NothingElseStored reread (reached reread shortHash calls) event)) ∧
    ∀ error s', exec (upsertEvent now event) (reached reread shortHash calls) = (.error error, s') →
      (Refused (reached reread shortHash calls) event → s' = reached reread shortHash calls) ∧
      (s'.event reread event.eventId =
          (reached reread shortHash calls).event reread event.eventId →
        Refused (reached reread shortHash calls) event ∨
          StoredAlready (reached reread shortHash calls) now event) := by
  refine ⟨fun id s' h => ?_, fun error s' h => ⟨fun href => ?_, fun hsame => ?_⟩⟩
  · rw [upsertEvent_ok h]
    exact readsBack_iff (evidenceIds_nodup calls)
  · rcases upsertEvent_error h with ⟨-, hs'⟩ | ⟨hnot, -⟩
    · exact hs'
    · exact absurd href hnot
  · rcases upsertEvent_error h with ⟨href, -⟩ | ⟨-, front, hs'⟩
    · exact .inl href
    · refine .inr ?_
      rw [hs', event_put] at hsame
      obtain ⟨old, hold, heq⟩ := Option.map_eq_some_iff.1 hsame.symm
      refine ⟨old, hold, ?_⟩
      exact congrArg (fun stored : StructuredEvent => { stored with evidence := [] }) heq

/-- A tender with an amount; each row of evidence has an id that depends on its quote. -/
def tender (amount : String) (confidenceBps : ℕ) : StructuredEvent where
  eventId := "sevt:1"
  sourceRevisionId := "rev:1"
  kind := .order
  title := "中标"
  subjects := []
  objects := []
  amountText := some amount
  quantityText := none
  unitOriginal := none
  currencyOriginal := none
  baselinePeriod := none
  startsAt := none
  endsAt := none
  region := none
  conditions := []
  officialEffective := none
  reversibility := .conditional
  impactHorizon := .year
  lifecycle := .confirmed
  catalystPath := []
  validationDates := []
  invalidationConditions := []
  missingFields := []
  evidence :=
    [("title", "中标"), ("kind", "订单"), ("lifecycle", "中标"), ("amount_text", amount),
      ("reversibility", "条件可逆"), ("impact_horizon", "年度"), ("catalyst_path", "核对"),
      ("invalidation_conditions", "取消")].map fun (field, quote) =>
        { evidenceId := field ++ quote, eventId := "sevt:1", fieldName := field,
          provenance := .observedFact, sourceRevisionId := some "rev:1", sourceVersionId := none,
          quoteOriginal := some quote, quoteZh := none, location := .null, observedAt := 0,
          confidenceBps := confidenceBps }
  extractionVersion := "evidence-event-v1"
  createdAt := 0
  updatedAt := 0

/-- The quote of an earlier amount stays with the event, and a confidence that the table refuses leaves
an event without evidence. -/
theorem earlier_quote_stays :
    (∃ id s', exec (upsertEvent 2 (tender "2 亿元" 9000))
        (reached (fun j => j) (fun t => t) [.upsertEvent 1 (tender "1 亿元" 9000)]) = (.ok id, s') ∧
      ¬ ReadsBack (fun j => j) s' (tender "2 亿元" 9000)) ∧
    ∃ error s', exec (upsertEvent 1 (tender "1 亿元" 20000)) {} = (.error error, s') ∧
      s'.event (fun j => j) "sevt:1" ≠ EventRows.event (fun j => j) {} "sevt:1" := by
  constructor
  · set s := reached (fun j => j) (fun t => t) [.upsertEvent 1 (tender "1 亿元" 9000)]
    have hok : (exec (upsertEvent 2 (tender "2 亿元" 9000)) s).1.toOption = some "sevt:1" := by
      decide +kernel
    have hcount : ((exec (upsertEvent 2 (tender "2 亿元" 9000)) s).2.event (fun j => j) "sevt:1").map
        (·.evidence.length) = some 9 := by decide +kernel
    rcases hexec : exec (upsertEvent 2 (tender "2 亿元" 9000)) s with ⟨error | id, s'⟩
    · rw [hexec] at hok
      cases hok
    · refine ⟨id, s', rfl, ?_⟩
      rintro ⟨stored, hstored, -, hperm⟩
      have hstored' : s'.event (fun j => j) "sevt:1" = some stored := hstored
      rw [hexec, hstored'] at hcount
      have hnine : stored.evidence.length = 9 := Option.some.inj hcount
      have height : stored.evidence.length = 8 := hperm.length_eq
      omega
  · have herror : (exec (upsertEvent 1 (tender "1 亿元" 20000)) {}).1.toOption = none := by
      decide
    have hthere : ((exec (upsertEvent 1 (tender "1 亿元" 20000)) {}).2.event (fun j => j)
        "sevt:1").isSome = true := by decide +kernel
    rcases hexec : exec (upsertEvent 1 (tender "1 亿元" 20000)) {} with ⟨error | id, s'⟩
    · refine ⟨error, s', rfl, fun hsame => ?_⟩
      rw [hexec] at hthere
      rw [hsame] at hthere
      cases hthere
    · rw [hexec] at herror
      cases herror

end Astock.EventIntelligence
