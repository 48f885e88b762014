import Astock.Spec.Events
import Astock.Spec.StoreCalls
import Astock.Spec.Task
import Mathlib.Tactic

/-!
# A task and its surroundings

## The finalization budget

`FinalizationLedger` of `crates/agent-runtime/src/finalize.rs` counts the
rejected submissions of a task and decides whether repair may continue. Its map
from fingerprints to how often each was seen is kept as the list of fingerprints.
-/

namespace Astock

inductive ExhaustionReason where
  | budgetSpent
  | noProgress
  deriving DecidableEq

inductive RepairVerdict where
  | retry (attempt remaining : ℕ) (unchanged : Bool)
  | exhausted (attempt : ℕ) (reason : ExhaustionReason)
  deriving DecidableEq

def RepairVerdict.isExhausted : RepairVerdict → Bool
  | .retry _ _ _ => false
  | .exhausted _ _ => true

structure FinalizationLedger where
  maxAttempts : ℕ
  attempts : ℕ
  seen : List String
  deriving DecidableEq

namespace FinalizationLedger

def new (maxAttempts : ℕ) : FinalizationLedger := ⟨max maxAttempts 1, 0, []⟩

/-- Record one rejected submission and decide whether repair may continue. -/
def recordRejection (ledger : FinalizationLedger) (fingerprint : String) :
    FinalizationLedger × RepairVerdict :=
  let attempts := ledger.attempts + 1
  let repeats := ledger.seen.count fingerprint + 1
  let ledger' : FinalizationLedger := ⟨ledger.maxAttempts, attempts, fingerprint :: ledger.seen⟩
  if 2 < repeats then (ledger', .exhausted attempts .noProgress)
  else if ledger.maxAttempts ≤ attempts then (ledger', .exhausted attempts .budgetSpent)
  else (ledger', .retry attempts (ledger.maxAttempts - attempts) (1 < repeats))

/-- No attempt remains: the budget is used up, or a draft was resubmitted
unchanged a second time. -/
def Spent (ledger : FinalizationLedger) : Prop :=
  ledger.maxAttempts ≤ ledger.attempts ∨ ∃ f ∈ ledger.seen, 2 < ledger.seen.count f

instance (ledger : FinalizationLedger) : Decidable ledger.Spent :=
  inferInstanceAs (Decidable (_ ∨ ∃ f ∈ ledger.seen, _))

end FinalizationLedger

end Astock

/-!
## A running task and its surroundings

A task of `crates/agent-runtime/src/runtime.rs` talks to a model provider, to
tools, to the durable store and to a consumer, any of which may fail, and it may
be cancelled at any time. `Env` answers for all of them: each question is asked
at its own tick of a clock, so an `Env` is one behaviour of the surroundings, and
what holds for every `Env` holds for every behaviour.

`World` is the state of the run: the task's own `RunState`, the rows of the
store, and the `trace` of what has happened, which nothing reads back.
-/

namespace Astock

open Prog

/-! ### Outside the runtime -/

/-- What the runtime takes from its libraries. -/
structure RuntimePlatform extends Platform where
  /-- `serde_json::from_str`. -/
  parseJson : String → Except String Json
  rfc3339 : Instant → String
  /-- `format("%Y-%m-%d")`. -/
  date : Instant → String
  /-- `DateTime::<Utc>::MAX_UTC`. -/
  lastInstant : Instant

/-- The report contract, the renderer and the evidence catalog: pure functions of
`report.rs`, `render.rs`, `catalog.rs` and `finalize.rs`, whose results the runtime
passes on. -/
structure Reports where
  Catalog : Type
  Query : Type
  Draft : Type
  Problem : Type
  Rendered : Type
  emptyCatalog : Catalog
  ingest : Catalog → Json → Option String → Catalog
  decodeQuery : Json → Except String Query
  search : Catalog → Query → Json
  decodeDraft : Json → Except String Draft
  validateDraft : Draft → Catalog → List String → List Problem
  problemCode : Problem → String
  problemClaimId : Problem → Option String
  fingerprint : Draft → String
  validationRepair : List Problem → RepairVerdict → Json
  verificationRepair : List String → Draft → RepairVerdict → Json
  /-- The evidence a draft refers to, in order and without duplicates. -/
  cited : Draft → List String
  verifierFacts : Catalog → List String → List Json
  render : Draft → Catalog → Rendered
  markdown : Rendered → String
  verifierMarkdown : Rendered → String
  /-- The number of claims of each section. -/
  sectionSizes : Rendered → List ℕ
  /-- The internal ids of the references. -/
  references : Rendered → List String

/-- The surroundings of one run, by the tick at which each is asked. `none` from a
timed wait means that the time ran out. -/
structure Env where
  /-- The tick from which the task is cancelled. -/
  cancelAt : Option ℕ
  /-- The tick from which nobody receives the events. -/
  consumerGoneAt : Option ℕ
  /-- Whether `select!` takes the cancellation where both branches are ready. -/
  prefersCancel : ℕ → Bool
  /-- The store call fails, without effect. -/
  storeFault : ℕ → Option String
  uuid : ℕ → String
  now : ℕ → Instant
  selectedModel : ℕ → Option (Except ProviderError String)
  stream : ℕ → ModelRequest → Option (Except ProviderError Unit)
  /-- The next chunk; `some none` at the end of the stream. -/
  next : ℕ → Option (Option (Except ProviderError ModelChunk))
  execute : ℕ → String → Json → Option (Except String Json)
  /-- Which of the calls in flight finishes first. -/
  pick : ℕ → ℕ

namespace Env

def cancelled (E : Env) (t : ℕ) : Bool := E.cancelAt.any (· ≤ t)

def consumerGone (E : Env) (t : ℕ) : Bool := E.consumerGoneAt.any (· ≤ t)

end Env

/-- An `AgentRuntime`, with what surrounds it. -/
structure AgentRuntime where
  platform : RuntimePlatform
  reports : Reports
  env : Env
  tools : ToolRegistry := defaultRegistry
  config : RuntimeConfig := {}
  /-- `provider.name()`. -/
  providerName : String
  systemPrompt : RuntimeTask → String

/-! ### The trace -/

/-- How the store answers a call: with `Ok`, with a failure of its own that has no
effect, or with an error of the function called. -/
inductive CallAnswer where
  | ok
  | fault (text : String)
  | refused (error : StoreError)
  deriving DecidableEq

/-- Why the runtime gives up a task of its own accord while calls are open. -/
inductive GiveUp where
  | unknownTool
  | verifierFailed
  | noHandler
  deriving DecidableEq

/-- What happens in a run. -/
inductive Obs where
  /-- A store call, and how it was answered. -/
  | call (c : StoreCall) (answer : CallAnswer)
  /-- An event sent to the consumer. -/
  | notify (event : AgentEvent) (delivered : Bool)
  /-- The task was found cancelled. -/
  | inactive
  | gaveUp (why : GiveUp)
  /-- A model request. -/
  | request (messages : List Message)
  /-- A model turn with tool calls. -/
  | turn (text : String) (calls : List ModelToolCall)
  /-- A submitted report is about to be handled, with the ledger as it is then. -/
  | submission (ledger : FinalizationLedger)
  /-- A submitted draft is checked against the contract. -/
  | validated
  | verdict (v : RepairVerdict)
  /-- A submitted report has passed, and its call is complete. -/
  | accepted
  deriving DecidableEq

/-! ### State -/

structure RunState (C : Type) where
  taskId : String
  seq : ℕ
  phase : AgentPhase
  modelRound : ℕ
  completedToolIds : List String
  evidenceIds : List String
  unknownToolCalls : ℕ
  catalog : C
  finalization : FinalizationLedger

structure World (C : Type) where
  run : RunState C
  store : EngineStore
  clock : ℕ
  trace : List Obs

variable {C : Type}

namespace RunState

def new (taskId : String) (catalog : C) (maxFinalizationAttempts : ℕ) : RunState C where
  taskId := taskId
  seq := 0
  phase := .preparing
  modelRound := 0
  completedToolIds := []
  evidenceIds := []
  unknownToolCalls := 0
  catalog := catalog
  finalization := .new maxFinalizationAttempts

def setPhase (r : RunState C) (phase : AgentPhase) : RunState C := { r with phase }

/-- The payload of `agent.event.append` for the current sequence number. -/
def eventInput (r : RunState C) (event : AgentEvent) : AppendEvent where
  taskId := r.taskId
  seq := r.seq
  eventId := s!"{r.taskId}:{r.seq}"
  eventKind := event.kind
  event := event.toJson

/-- The payload of `agent.checkpoint.put`. -/
def checkpointInput (r : RunState C) : PutCheckpoint where
  taskId := r.taskId
  acceptedSeq := r.seq
  phase := r.phase.asStr
  checkpoint := .ofFields [
    ("task_id", .str r.taskId),
    ("phase", .str r.phase.asStr),
    ("accepted_seq", .ofNat r.seq),
    ("model_round", .ofNat r.modelRound),
    ("completed_tool_ids", AgentEvent.strings r.completedToolIds),
    ("evidence_ids", AgentEvent.strings r.evidenceIds),
    ("state_version", .str "rust-agent-runtime-v1")]

end RunState

namespace World

def mapRun (f : RunState C → RunState C) (w : World C) : World C := { w with run := f w.run }

def advance (w : World C) : World C := { w with clock := w.clock + 1 }

def note (o : Obs) (w : World C) : World C := { w with trace := w.trace ++ [o] }

end World

/-! ### Steps -/

/-- The end of a wait that races a cancellation and a timer. -/
inductive Raced (α : Type) where
  | cancelled
  | elapsed
  | ready (a : α)

/-- A part of the run of `A`. -/
abbrev RunM (A : AgentRuntime) := Prog (World A.reports.Catalog) RuntimeError

namespace AgentRuntime

variable (A : AgentRuntime)

def tick : RunM A ℕ := do
  let w ← get
  set w.advance
  pure w.clock

def observe (o : Obs) : RunM A Unit := modify (World.note o)

def modifyRun (f : RunState A.reports.Catalog → RunState A.reports.Catalog) : RunM A Unit :=
  modify (World.mapRun f)

/-- The answer of the store to a call, and the rows after it. -/
def serve (w : World A.reports.Catalog) (c : StoreCall) : CallAnswer × EngineStore :=
  match A.env.storeFault w.clock with
  | some text => (.fault text, w.store)
  | none =>
    match exec (c.prog A.platform.toPlatform) w.store with
    | (.ok _, s) => (.ok, s)
    | (.error e, s) => (.refused e, s)

/-- The world after a store call. -/
def served (w : World A.reports.Catalog) (c : StoreCall) : World A.reports.Catalog :=
  { w.advance.note (.call c (A.serve w c).1) with store := (A.serve w c).2 }

/-- `EngineGateway::request`, for the calls of `AgentStore`. -/
def storeCall (c : ℤ → StoreCall) : RunM A Unit := do
  let w ← get
  set (A.served w (c (A.env.now w.clock / 1000000000)))
  match (A.serve w (c (A.env.now w.clock / 1000000000))).1 with
  | .ok => pure ()
  | .fault text => throw (.store text)
  | .refused error => throw (.store ("agent_event_store: " ++ error.message))

/-- `sender.send(event)`: it fails once nobody receives. -/
def notify (event : AgentEvent) : RunM A Unit := do
  let t ← A.tick
  A.observe (.notify event (!A.env.consumerGone t))
  guardOr (!A.env.consumerGone t) .cancelled

def ensureActive : RunM A Unit := do
  let t ← A.tick
  if A.env.cancelled t then do
    A.observe .inactive
    throw .cancelled
  else pure ()

/-- `select!` between the cancellation and a timed wait. -/
def race {α : Type} (wait : ℕ → Option α) : RunM A (Raced α) := do
  let t ← A.tick
  pure (
    if A.env.cancelled t && A.env.prefersCancel t then .cancelled
    else match wait t with
      | none => .elapsed
      | some a => .ready a)

/-- Append an event, accept it in a checkpoint, and send it to the consumer. -/
def record (event : AgentEvent) : RunM A Unit := do
  A.modifyRun fun r => { r with seq := r.seq + 1 }
  let w ← get
  A.storeCall fun now => .appendEvent now (w.run.eventInput event)
  A.storeCall fun now => .putCheckpoint now w.run.checkpointInput
  A.notify event

def recordAll : List AgentEvent → RunM A Unit
  | [] => pure ()
  | event :: rest => do
    A.record event
    recordAll rest

def beginEffect (kind : String) (payload : Json) : RunM A String := do
  let t ← A.tick
  let w ← get
  A.storeCall fun now => .beginEffect now {
    effectId := A.env.uuid t
    taskId := w.run.taskId
    causedBySeq := w.run.seq
    effectKind := kind
    effect := payload
    idempotencyKey := s!"{w.run.taskId}:{w.run.seq}:{kind}" }
  pure (A.env.uuid t)

def completeEffect (effectId status : String) (result : Json) : RunM A Unit :=
  A.storeCall fun now => .completeEffect now { effectId, status, result }

/-- `complete_effect(.., "failed", json!({"error": message}))`. -/
def failEffect (effectId message : String) : RunM A Unit :=
  A.completeEffect effectId "failed" (.ofFields [("error", .str message)])

end AgentRuntime

end Astock
