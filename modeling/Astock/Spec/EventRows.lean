import Astock.Lib.Table
import Astock.Spec.EventOntology

/-!
# The rows of the event store

`crates/event-intelligence/src/lib.rs` with the tables of `crates/storage/src/db.rs`: how an event and
its evidence are written and read back. A call is several statements without a transaction, so what
was written before an error stays. A column that holds a list as JSON, or an enumeration by its token,
is the value it is read back as; `reread` is what `serde_json` reads back of the location of evidence,
which may be any document. `now` is the clock, and `shortHash` stands for the first hexadecimal digits
of the SHA-256 of a text.
-/

namespace Astock.EventIntelligence

open Prog

/-- The tables, each in the order in which its rows were inserted. -/
structure EventRows where
  /-- `structured_events`; the evidence of a row is in its own table. -/
  events : List StructuredEvent := []
  /-- `event_field_evidence`. -/
  evidence : List EventFieldEvidence := []
  /-- `event_state_transitions`. -/
  transitions : List EventStateTransition := []

/-! ## Writing -/

/-- `ON CONFLICT(evidence_id) DO UPDATE SET`: the columns that are updated. -/
def EventFieldEvidence.updated (old row : EventFieldEvidence) : EventFieldEvidence :=
  { old with
    quoteOriginal := row.quoteOriginal
    quoteZh := row.quoteZh
    location := row.location
    observedAt := row.observedAt
    confidenceBps := row.confidenceBps }

/-- The constraints on a row of evidence: its confidence, its event, and that no other row has its
event, field, provenance, revision and quote. -/
def EventRows.admits (s : EventRows) (row : EventFieldEvidence) : Bool :=
  row.confidenceBps ≤ 10000 && (s.events.any fun event => event.eventId = row.eventId) &&
    !(s.evidence.any fun other => row.outline.clashes other.outline)

def upsertEvidence (row : EventFieldEvidence) : Prog EventRows EventError Unit := do
  let s ← get
  guardOr (s.admits (Table.merged (·.evidenceId) EventFieldEvidence.updated row s.evidence))
    (.constraint "event_field_evidence")
  set { s with
    evidence := Table.upsertWith (·.evidenceId) EventFieldEvidence.updated row s.evidence }

/-- `ON CONFLICT(event_id) DO UPDATE SET`: every column but the time of creation. -/
def StructuredEvent.updated (old event : StructuredEvent) : StructuredEvent :=
  { event with createdAt := old.createdAt }

/-- The row of an event that is written at a time. -/
def StructuredEvent.row (now : ℤ) (event : StructuredEvent) : StructuredEvent :=
  { event with evidence := [], updatedAt := now }

/-- Whether the revision of an event is that of another event. -/
def EventRows.revisionTaken (s : EventRows) (event : StructuredEvent) : Bool :=
  s.events.any fun other =>
    other.eventId ≠ event.eventId && other.sourceRevisionId = event.sourceRevisionId

def upsertEvent (now : ℤ) (event : StructuredEvent) : Prog EventRows EventError String := do
  ExceptT.mk (pure (validateEvidenceCoverage event.outline))
  let s ← get
  guardOr (!s.revisionTaken event) (.constraint "structured_events")
  set { s with
    events := Table.upsertWith (·.eventId) StructuredEvent.updated (event.row now) s.events }
  event.evidence.forM upsertEvidence
  pure event.eventId

/-! ## Reading -/

/-- `with_evidence`, in the order of the fields and of the ids. -/
def EventRows.evidenceOf (reread : Json → Json) (s : EventRows) (eventId : String) :
    List EventFieldEvidence :=
  ((s.evidence.filter fun row => row.eventId = eventId).insertionSort fun a b =>
    a.fieldName < b.fieldName ∨ a.fieldName = b.fieldName ∧ a.evidenceId ≤ b.evidenceId).map fun row =>
      { row with location := reread row.location }

def EventRows.event (reread : Json → Json) (s : EventRows) (eventId : String) :
    Option StructuredEvent :=
  (Table.find (·.eventId) eventId s.events).map fun event =>
    { event with evidence := s.evidenceOf reread eventId }

/-! ## The lifecycle -/

section Transitions

variable (reread : Json → Json) (shortHash : String → String)

/-- A transition whose id is there already is not recorded, and its evidence is not looked up. -/
def insertTransition (t : EventStateTransition) : Prog EventRows EventError Unit := do
  let s ← get
  if s.transitions.any fun row => row.transitionId = t.transitionId then
    pure ()
  else
    guardOr (t.evidenceId.all fun id => s.evidence.any fun row => row.evidenceId = id)
      (.constraint "event_state_transitions")
    set { s with transitions := s.transitions ++ [t] }

def setLifecycle (eventId : String) (next : EventLifecycle) (updatedAt : ℤ) (s : EventRows) :
    EventRows :=
  { s with
    events := Table.update (·.eventId) eventId
      (fun event => { event with lifecycle := next, updatedAt := updatedAt }) s.events }

def EventRows.transition (eventId : String) (next : EventLifecycle) (reason : String)
    (evidenceId : Option String) (transitionedAt : ℤ) :
    Prog EventRows EventError EventStateTransition := do
  let s ← get
  match s.event reread eventId with
  | none => throw (.invalid s!"事件不存在：{eventId}")
  | some current =>
    guardOr (current.lifecycle.canTransitionTo next)
      (.invalidTransition s!"{current.lifecycle.token} → {next.token}")
    guardOr (Text.trim reason ≠ "") (.invalidTransition "迁移原因不能为空")
    let t : EventStateTransition :=
      { transitionId := transitionId shortHash eventId next transitionedAt
        eventId := eventId
        fromStatus := current.lifecycle
        toStatus := next
        reason := reason
        evidenceId := evidenceId
        transitionedAt := transitionedAt }
    insertTransition t
    modify (setLifecycle eventId next transitionedAt)
    pure t

/-- A call of the store that writes these tables. -/
inductive RowCall
  | upsertEvent (now : ℤ) (event : StructuredEvent)
  | transition (eventId : String) (next : EventLifecycle) (reason : String)
      (evidenceId : Option String) (transitionedAt : ℤ)

/-- The tables after a call, whether it succeeded or not. -/
def EventRows.step (s : EventRows) : RowCall → EventRows
  | .upsertEvent now event => (exec (upsertEvent now event) s).2
  | .transition eventId next reason evidenceId transitionedAt =>
    (exec (EventRows.transition reread shortHash eventId next reason evidenceId transitionedAt) s).2

end Transitions

end Astock.EventIntelligence
