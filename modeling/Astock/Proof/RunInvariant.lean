import Astock.Spec.Runtime
import Astock.Proof.EffectTable

/-!
# The invariant of a running task

* `Live`: what holds of a task while it runs: its log is numbered up to its own
  sequence number, every store call was served, and the effects begun and not
  completed lie within a known list.
* `Ended`: what holds once it has published its report.
* `Stopped`: what holds when its loop was left with an error, and why it was.
* `View`: what the trace says about submissions and about the conversation. The
  steps that touch neither leave the view alone.
-/

namespace Astock

open Prog

/-! ## Reading the trace -/

/-- The effects begun and not completed, after one more observation. -/
def stepOpen (opened : List String) : Obs → List String
  | .call (.beginEffect _ input) .ok => input.effectId :: opened
  | .call (.completeEffect _ input) .ok => opened.filter (· ≠ input.effectId)
  | _ => opened

/-- The effects begun and not completed. -/
def openEffects (trace : List Obs) : List String := trace.foldl stepOpen []

theorem openEffects_append (trace obs : List Obs) :
    openEffects (trace ++ obs) = obs.foldl stepOpen (openEffects trace) := List.foldl_append

/-- Every store call was answered with `Ok`. -/
def Served (trace : List Obs) : Prop := ∀ c answer, .call c answer ∈ trace → answer = .ok

def Obs.isServed : Obs → Bool
  | .call _ answer => answer = .ok
  | _ => true

instance (trace : List Obs) : Decidable (Served trace) :=
  decidable_of_iff (∀ o ∈ trace, o.isServed = true)
    ⟨fun h _ _ hmem => of_decide_eq_true (h _ hmem), fun h o hmem => by
      cases o with
      | call c answer => exact decide_eq_true (h c answer hmem)
      | _ => rfl⟩

theorem Served.append {trace obs : List Obs} (h : Served trace) (ho : Served obs) :
    Served (trace ++ obs) := by
  intro c answer hmem
  rcases List.mem_append.1 hmem with hmem | hmem
  · exact h c answer hmem
  · exact ho c answer hmem

@[simp] theorem served_nil : Served [] := fun _ _ h => absurd h (List.not_mem_nil)

@[simp] theorem served_cons {o : Obs} {obs : List Obs} :
    Served (o :: obs) ↔ (∀ c answer, o = .call c answer → answer = .ok) ∧ Served obs := by
  constructor
  · intro h
    exact ⟨fun c answer ho => h c answer (ho ▸ List.mem_cons_self),
      fun c answer hmem => h c answer (List.mem_cons_of_mem _ hmem)⟩
  · rintro ⟨ho, h⟩ c answer hmem
    rcases List.mem_cons.1 hmem with heq | hmem
    · exact ho c answer heq.symm
    · exact h c answer hmem

/-- A store call failed, other than over its sequence number. -/
def CallAnswer.failsOutright : CallAnswer → Bool
  | .ok => false
  | .fault _ => true
  | .refused e => !e.isSequence

/-- The task leaves a part of its work undone here, although the store works: it is
cut short, or its report is accepted. -/
inductive Obs.Strikes : Obs → Prop
  | inactive : Obs.Strikes .inactive
  | gaveUp (why : GiveUp) : Obs.Strikes (.gaveUp why)
  | undelivered (event : AgentEvent) : Obs.Strikes (.notify event false)
  | accepted : Obs.Strikes .accepted

instance : DecidablePred Obs.Strikes
  | .inactive => isTrue .inactive
  | .gaveUp why => isTrue (.gaveUp why)
  | .notify event false => isTrue (.undelivered event)
  | .accepted => isTrue .accepted
  | .notify _ true | .call _ _ | .request _ | .turn _ _ | .submission _ | .validated
  | .verdict _ => isFalse (by rintro ⟨⟩)

/-- Nothing strikes while an effect is open. -/
def Undisturbed (trace : List Obs) : Prop :=
  ∀ before o after, trace = before ++ o :: after → o.Strikes → openEffects before = []

theorem Undisturbed.of_append {trace obs : List Obs} (h : Undisturbed (trace ++ obs)) :
    Undisturbed trace := by
  rintro before x after rfl hx
  exact h before x (after ++ obs) (by simp) hx

/-- The check of `Undisturbed`, from the effects open at the start. -/
def undisturbedFrom (opened : List String) : List Obs → Bool
  | [] => true
  | o :: rest => (!decide o.Strikes || opened.isEmpty) && undisturbedFrom (stepOpen opened o) rest

theorem undisturbedFrom_iff (done trace : List Obs) :
    undisturbedFrom (openEffects done) trace = true ↔
      ∀ before o after, trace = before ++ o :: after → o.Strikes → openEffects (done ++ before) = [] := by
  induction trace generalizing done with
  | nil => simp [undisturbedFrom]
  | cons x rest ih =>
    have hstep : stepOpen (openEffects done) x = openEffects (done ++ [x]) := by
      rw [openEffects_append]; rfl
    rw [undisturbedFrom, Bool.and_eq_true, hstep, ih]
    constructor
    · rintro ⟨hx, hrest⟩ before o after heq ho
      cases before with
      | nil =>
        obtain ⟨rfl, -⟩ := List.cons.inj heq
        simpa [ho] using hx
      | cons y before =>
        obtain ⟨rfl, hrest'⟩ := List.cons.inj heq
        simpa using hrest before o after hrest' ho
    · intro h
      refine ⟨?_, fun before o after heq ho => ?_⟩
      · by_cases hx : x.Strikes
        · simpa [hx] using h [] x rest rfl hx
        · simp [hx]
      · simpa using h (x :: before) o after (by rw [heq]; rfl) ho

instance (trace : List Obs) : Decidable (Undisturbed trace) :=
  decidable_of_iff _ (undisturbedFrom_iff [] trace)

def Obs.isReport : Obs → Bool
  | .submission _ | .validated | .verdict _ => true
  | _ => false

def Obs.isDialogue : Obs → Bool
  | .request _ | .turn _ _ => true
  | _ => false

/-! ## Views -/

/-- What a run has said about submissions and to the model. -/
@[ext]
structure View where
  reports : List Obs
  dialogue : List Obs
  ledger : FinalizationLedger

def viewOf (trace : List Obs) (ledger : FinalizationLedger) : View where
  reports := trace.filter Obs.isReport
  dialogue := trace.filter Obs.isDialogue
  ledger := ledger

theorem viewOf_append (trace : List Obs) (ledger : FinalizationLedger) {obs : List Obs}
    (hr : obs.filter Obs.isReport = []) (hd : obs.filter Obs.isDialogue = []) :
    viewOf (trace ++ obs) ledger = viewOf trace ledger := by
  simp only [viewOf, List.filter_append, hr, hd, List.append_nil]

/-- The view after one more observation. -/
def View.note (v : View) (o : Obs) : View where
  reports := v.reports ++ [o].filter Obs.isReport
  dialogue := v.dialogue ++ [o].filter Obs.isDialogue
  ledger := v.ledger

theorem View.note_eq (v : View) {o : Obs} (hr : o.isReport = false) (hd : o.isDialogue = false) :
    v.note o = v := by
  simp [View.note, hr, hd]

/-- Every submission was handled while an attempt remained. -/
def Heeded (reports : List Obs) : Prop := ∀ ledger, .submission ledger ∈ reports → ¬ ledger.Spent

def Obs.isHeeded : Obs → Bool
  | .submission ledger => decide (¬ ledger.Spent)
  | _ => true

instance (reports : List Obs) : Decidable (Heeded reports) :=
  decidable_of_iff (∀ o ∈ reports, o.isHeeded = true)
    ⟨fun h ledger hmem => of_decide_eq_true (h _ hmem), fun h o hmem => by
      cases o with
      | submission ledger => exact decide_eq_true (h ledger hmem)
      | _ => rfl⟩

/-- No submission was answered with an exhausted ledger. -/
def Unexhausted (reports : List Obs) : Prop :=
  ∀ attempt reason, .verdict (.exhausted attempt reason) ∉ reports

def Obs.isValidated : Obs → Bool
  | .validated => true
  | _ => false

/-- How many drafts were checked against the contract. -/
def validatedCount (reports : List Obs) : ℕ := reports.countP Obs.isValidated

/-- `messages` goes on from the messages `asked` with the message of a turn and,
before the next message of the assistant, the results of the calls of the turn and
no other. -/
def Answered (asked : List Message) (text : String) (calls : List ModelToolCall)
    (messages : List Message) : Prop :=
  ∃ rest, messages = asked ++ turnMessage text calls :: rest ∧
    (((rest.takeWhile (·.role ≠ .assistant)).filter (·.role = .tool)).map (·.toolCallId)).Perm
      (calls.map fun call => some call.id)

/-- `messages` answers every turn so far. -/
def AnswersAll (dialogue : List Obs) (messages : List Message) : Prop :=
  ∀ before text calls after, dialogue = before ++ .turn text calls :: after →
    ∃ asked, before.getLast? = some (.request asked) ∧ Answered asked text calls messages

/-- Every request answers all turns before it. -/
def RequestsOK (dialogue : List Obs) : Prop :=
  ∀ before messages after, dialogue = before ++ .request messages :: after →
    AnswersAll before messages

/-- **What a view says at any time.** -/
structure Sound (budget : ℕ) (v : View) : Prop where
  allowance : v.ledger.maxAttempts = budget
  exhausted : v.ledger.Spent ↔ ¬ Unexhausted v.reports
  bounded : Heeded v.reports → validatedCount v.reports ≤ budget
  requests : RequestsOK v.dialogue

/-- A report of this view may be published. -/
def Publishable (v : View) : Prop := Heeded v.reports → Unexhausted v.reports

/-! ## The log of a task -/

def TerminalKind (kind : String) : Prop := kind ∈ ["suspended", "cancelled", "completed", "failed"]

/-- The kind of the terminal event, for an event that is one. -/
def AgentEvent.ends (event : AgentEvent) : Option String := event.terminalPhase.map (·.asStr)

theorem AgentEvent.ends_eq_none {event : AgentEvent} (h : event.ends = none) :
    ¬ TerminalKind event.kind := by
  cases event <;> simp [AgentEvent.ends, AgentEvent.terminalPhase] at h <;>
    simp [TerminalKind, AgentEvent.kind]

theorem AgentEvent.ends_eq_some {event : AgentEvent} {kind : String} (h : event.ends = some kind) :
    event.kind = kind ∧ TerminalKind kind := by
  cases event <;> simp [AgentEvent.ends, AgentEvent.terminalPhase, AgentPhase.asStr] at h <;>
    subst h <;> simp [TerminalKind, AgentEvent.kind]

/-- The log of a task without a terminal event. -/
def Unfinished (t : String) (store : EngineStore) : Prop :=
  ∀ e ∈ store.eventsOf t, ¬ TerminalKind e.eventKind

/-- The log of a task: without a terminal event, or with the one that ends it. -/
def LogShape (t : String) (store : EngineStore) : Option String → Prop
  | none => Unfinished t store
  | some kind => TerminalKind kind ∧ ∃ before last, store.eventsOf t = before ++ [last] ∧
      (∀ e ∈ before, ¬ TerminalKind e.eventKind) ∧ last.eventKind = kind

/-! ## The invariants -/

/-- **What holds of the store at any time of a run.** -/
structure Kept (t : String) (store : EngineStore) (trace : List Obs) : Prop where
  log : LogOK store
  effects : EffectsOK store
  /-- A pending effect of the task is one that the run has begun and not completed. -/
  pending : ∀ row ∈ store.effects, row.taskId = t → row.status = "pending" →
    row.effectId ∈ openEffects trace

/-- **A task that goes on.** `opened` bounds the open effects, and `ended` is the
kind of the terminal event, once there is one. -/
structure Running (t : String) (opened : List String) (v : View) (budget : ℕ)
    (ended : Option String) (seq : ℕ) (store : EngineStore) (trace : List Obs) : Prop where
  kept : Kept t store trace
  inStep : store.maxSeq t = seq
  served : Served trace
  shape : LogShape t store ended
  within : Undisturbed trace → openEffects trace ⊆ opened
  view : viewOf trace v.ledger = v
  sound : Sound budget v

/-- Why the loop of a task was left with an error. -/
inductive Cause (t : String) (error : RuntimeError) (v : View) (seq : ℕ) (store : EngineStore)
    (trace : List Obs) : Prop
  /-- The store works, and what was begun is complete unless something struck. -/
  | gaveUp : Served trace → store.maxSeq t = seq → (Undisturbed trace → openEffects trace = []) →
      (Unfinished t store ∨
        Publishable v ∧ ∃ report ids, .notify (.completed report ids) false ∈ trace) →
      Cause t error v seq store trace
  /-- A store call failed. Only a failed append leaves the task ahead of its log. -/
  | failed (before : List Obs) (c : StoreCall) (answer : CallAnswer) :
      trace = before ++ [.call c answer] → Served before → answer.failsOutright = true →
      (∃ text, error = .store text) →
      (store.maxSeq t = seq ∨ ∃ now input, c = .appendEvent now input) →
      (Unfinished t store ∨ Publishable v) → Cause t error v seq store trace

/-- **A task whose loop was left with an error.** -/
structure Halted (t : String) (budget : ℕ) (error : RuntimeError) (v : View) (seq : ℕ)
    (store : EngineStore) (trace : List Obs) : Prop where
  kept : Kept t store trace
  behind : store.maxSeq t ≤ seq
  sound : Sound budget v
  cause : Cause t error v seq store trace

section Worlds

variable {C : Type} (t : String) (budget : ℕ)

/-- A world in which the task goes on. -/
def Live (opened : List String) (v : View) (w : World C) : Prop :=
  w.run.taskId = t ∧ w.run.finalization = v.ledger ∧
    Running t opened v budget none w.run.seq w.store w.trace

/-- A world in which the task has published its report. -/
def Ended (w : World C) : Prop :=
  ∃ v, w.run.finalization = v.ledger ∧ Publishable v ∧
    Running t [] v budget (some "completed") w.run.seq w.store w.trace ∧
    ∃ row, w.store.taskOf t = some row ∧ row.phase = "completed"

/-- A world in which the loop was left with `error`. -/
def Stopped (error : RuntimeError) (w : World C) : Prop :=
  w.run.taskId = t ∧
    Halted t budget error (viewOf w.trace w.run.finalization) w.run.seq w.store w.trace

end Worlds

/-! ## What is left alone -/

section Frames

variable {t : String} {store s : EngineStore} {trace : List Obs}

/-- A store step that leaves the effects alone, under a trace that leaves them open. -/
theorem Kept.keep (h : Kept t store trace) {trace' : List Obs} (hlog : LogOK s) (heff : EffectsOK s)
    (he : s.effects = store.effects) (ho : openEffects trace' = openEffects trace) :
    Kept t s trace' := by
  refine ⟨hlog, heff, fun row hrow ht hp => ?_⟩
  rw [ho]
  exact h.pending row (he ▸ hrow) ht hp

end Frames

end Astock
