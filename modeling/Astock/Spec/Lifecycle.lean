import Astock.Lib.Prog
import Astock.Lib.Table
import Astock.Lib.Text

/-!
# The lifecycle of events

`crates/event-intelligence/src/lib.rs`: structured events with the evidence for their fields, and
the transitions of their lifecycle. A call is several statements without a transaction, so what
was written before an error stays. `shortHash` stands for the first hexadecimal digits of the
SHA-256 of a text. Columns that only the caller reads are left out.
-/

namespace Astock

open Prog

inductive EventLifecycle
  | rumor
  | unverified
  | confirmed
  | effective
  | completed
  | cancelled
  | revised
  deriving DecidableEq, Repr

def EventLifecycle.token : EventLifecycle → String
  | rumor => "rumor"
  | unverified => "unverified"
  | confirmed => "confirmed"
  | effective => "effective"
  | completed => "completed"
  | cancelled => "cancelled"
  | revised => "revised"

def EventLifecycle.canTransitionTo (self next : EventLifecycle) : Bool :=
  (match self, next with
    | rumor, unverified | rumor, confirmed | rumor, cancelled | rumor, revised => true
    | unverified, confirmed | unverified, cancelled | unverified, revised => true
    | confirmed, effective | confirmed, completed | confirmed, cancelled | confirmed, revised => true
    | effective, completed | effective, cancelled | effective, revised => true
    | revised, unverified | revised, confirmed | revised, effective | revised, completed
    | revised, cancelled => true
    | _, _ => false) || self = next

inductive EvidenceProvenance
  | observedFact
  | companyGuidance
  | marketConsensus
  | agentAssumption
  | scenario
  deriving DecidableEq, Repr

structure EventFieldEvidence where
  evidenceId : String
  eventId : String
  fieldName : String
  provenance : EvidenceProvenance
  sourceRevisionId : Option String
  quoteOriginal : Option String
  confidenceBps : ℕ
  deriving DecidableEq, Repr

structure StructuredEvent where
  eventId : String
  sourceRevisionId : String
  /-- The ids of the subjects. -/
  subjects : List String := []
  amountText : Option String := none
  quantityText : Option String := none
  unitOriginal : Option String := none
  currencyOriginal : Option String := none
  baselinePeriod : Option String := none
  startsAt : Option ℤ := none
  endsAt : Option ℤ := none
  region : Option String := none
  conditions : List String := []
  officialEffective : Option Bool := none
  lifecycle : EventLifecycle
  evidence : List EventFieldEvidence
  deriving DecidableEq, Repr

structure EventStateTransition where
  transitionId : String
  eventId : String
  fromStatus : EventLifecycle
  toStatus : EventLifecycle
  reason : String
  evidenceId : Option String
  transitionedAt : ℤ
  deriving DecidableEq, Repr

inductive EventError
  | invalid (message : String)
  | invalidTransition (message : String)
  /-- A statement that violates a constraint of its table. -/
  | constraint (table : String)
  deriving DecidableEq, Repr

/-- The tables, each in the order in which its rows were inserted. -/
structure EventTables where
  /-- `structured_events`; the evidence of a row is in its own table. -/
  events : List StructuredEvent := []
  evidence : List EventFieldEvidence := []
  transitions : List EventStateTransition := []

/-! ## Evidence -/

/-- The fields of an event that need evidence. -/
def StructuredEvent.required (event : StructuredEvent) : List (String × Bool) :=
  [("title", true), ("kind", true), ("lifecycle", true),
    ("subjects", !event.subjects.isEmpty),
    ("amount_text", event.amountText.isSome),
    ("quantity_text", event.quantityText.isSome),
    ("unit_original", event.unitOriginal.isSome),
    ("currency_original", event.currencyOriginal.isSome),
    ("baseline_period", event.baselinePeriod.isSome),
    ("starts_at", event.startsAt.isSome),
    ("ends_at", event.endsAt.isSome),
    ("region", event.region.isSome),
    ("conditions", !event.conditions.isEmpty),
    ("official_effective", event.officialEffective.isSome),
    ("reversibility", true), ("impact_horizon", true), ("catalyst_path", true),
    ("invalidation_conditions", true)]

def validateEvidenceCoverage (event : StructuredEvent) : Except EventError Unit :=
  let fields := event.evidence.map (·.fieldName)
  match event.required.find? fun field => field.2 && field.1 ∉ fields with
  | some field => .error (.invalid s!"字段 {field.1} 缺少逐项证据")
  | none =>
    if event.evidence.any fun row =>
      (row.provenance = .observedFact || row.provenance = .companyGuidance) &&
        (row.sourceRevisionId.getD "" = "" || row.quoteOriginal.getD "" = "") then
      .error (.invalid "事实/公司指引证据必须包含来源修订和原文摘录")
    else .ok ()

/-- Two rows of `event_field_evidence` that may not both be there. A missing value is equal to no
other. -/
def EventFieldEvidence.clashes (row other : EventFieldEvidence) : Bool :=
  row.evidenceId ≠ other.evidenceId && row.eventId = other.eventId &&
    row.fieldName = other.fieldName && row.provenance = other.provenance &&
    row.sourceRevisionId.isSome && row.sourceRevisionId = other.sourceRevisionId &&
    row.quoteOriginal.isSome && row.quoteOriginal = other.quoteOriginal

/-- Evidence that is there already gets a new quote and a new confidence. -/
def upsertEvidence (evidence : EventFieldEvidence) : Prog EventTables EventError Unit := do
  let s ← get
  let row := match Table.find (·.evidenceId) evidence.evidenceId s.evidence with
    | some old =>
      { old with
        quoteOriginal := evidence.quoteOriginal
        confidenceBps := evidence.confidenceBps }
    | none => evidence
  guardOr (row.confidenceBps ≤ 10000 && (s.events.any fun event => event.eventId = row.eventId) &&
    !(s.evidence.any row.clashes)) (.constraint "event_field_evidence")
  set { s with evidence := Table.upsert (·.evidenceId) row s.evidence }

/-! ## Events and their lifecycle -/

def upsertEvent (event : StructuredEvent) : Prog EventTables EventError String := do
  ExceptT.mk (pure (validateEvidenceCoverage event))
  let s ← get
  guardOr (!(s.events.any fun other =>
      other.eventId ≠ event.eventId && other.sourceRevisionId = event.sourceRevisionId))
    (.constraint "structured_events")
  set { s with events := Table.upsert (·.eventId) { event with evidence := [] } s.events }
  event.evidence.forM upsertEvidence
  pure event.eventId

def EventTables.event (s : EventTables) (eventId : String) : Option StructuredEvent :=
  (Table.find (·.eventId) eventId s.events).map fun event =>
    { event with
      evidence := (s.evidence.filter fun row => row.eventId = eventId).insertionSort fun a b =>
        a.fieldName < b.fieldName ∨ a.fieldName = b.fieldName ∧ a.evidenceId ≤ b.evidenceId }

section Transitions

variable (shortHash : String → String)

def transitionId (eventId : String) (next : EventLifecycle) (transitionedAt : ℤ) : String :=
  "etr:" ++ shortHash s!"{eventId}|{next.token}|{transitionedAt}"

/-- A transition whose id is there already is not recorded, and its evidence is not looked up. -/
def insertTransition (t : EventStateTransition) : Prog EventTables EventError Unit := do
  let s ← get
  if s.transitions.any fun row => row.transitionId = t.transitionId then
    pure ()
  else
    guardOr (t.evidenceId.all fun id => s.evidence.any fun row => row.evidenceId = id)
      (.constraint "event_state_transitions")
    set { s with transitions := s.transitions ++ [t] }

def setLifecycle (eventId : String) (next : EventLifecycle) (s : EventTables) : EventTables :=
  { s with
    events := Table.update (·.eventId) eventId (fun event => { event with lifecycle := next })
      s.events }

def EventTables.transition (eventId : String) (next : EventLifecycle) (reason : String)
    (evidenceId : Option String) (transitionedAt : ℤ) :
    Prog EventTables EventError EventStateTransition := do
  let s ← get
  match s.event eventId with
  | none => throw (.invalid s!"事件不存在：{eventId}")
  | some current =>
    guardOr (current.lifecycle.canTransitionTo next)
      (.invalidTransition s!"{current.lifecycle.token} → {next.token}")
    guardOr (Text.trim reason ≠ "") (.invalidTransition "迁移原因不能为空")
    let t : EventStateTransition :=
      { transitionId := transitionId shortHash eventId next transitionedAt
        eventId := eventId
        fromStatus := current.lifecycle
        toStatus := next
        reason := reason
        evidenceId := evidenceId
        transitionedAt := transitionedAt }
    insertTransition t
    modify (setLifecycle eventId next)
    pure t

def EventTables.timeline (s : EventTables) (eventId : String) : List EventStateTransition :=
  (s.transitions.filter fun t => t.eventId = eventId).insertionSort fun a b =>
    a.transitionedAt ≤ b.transitionedAt

/-- A call of the store. -/
inductive EventCall
  | upsertEvent (event : StructuredEvent)
  | transition (eventId : String) (next : EventLifecycle) (reason : String)
      (evidenceId : Option String) (transitionedAt : ℤ)

def EventCall.prog : EventCall → Prog EventTables EventError (Option EventStateTransition)
  | .upsertEvent event => do let _ ← Astock.upsertEvent event; pure none
  | .transition eventId next reason evidenceId transitionedAt => do
    let t ← EventTables.transition shortHash eventId next reason evidenceId transitionedAt
    pure (some t)

/-- The tables after a call, whether it succeeded or not. -/
def EventTables.step (s : EventTables) (call : EventCall) : EventTables :=
  (exec (call.prog shortHash) s).2

/-- The transition that a call made, if it succeeded. -/
def EventTables.accepted (s : EventTables) (call : EventCall) : Option EventStateTransition :=
  match (exec (call.prog shortHash) s).1 with
  | .ok t => t
  | .error _ => none

end Transitions

end Astock
