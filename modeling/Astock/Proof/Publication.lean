import Astock.Proof.TaskRuns

/-!
# What a run says and publishes

* `requests_answered`: **every model request answers the tool calls of all turns
  before it**, in every run.
* `failsClosed_of_heeded`: **a run in which no submission is handled with a spent
  ledger fails closed.** `secondSubmission_published` is a run in which one is: a
  batch goes on after the call that spent the ledger, and publishes.
-/

namespace Astock

open Prog

variable {A : AgentRuntime} {t : String} {store : EngineStore} {task : RuntimeTask}
  {result : Except RuntimeError RunOutcome} {w : World A.reports.Catalog}

/-! ## A runtime to try

The report functions on drafts without claims, and surroundings in which all goes
well: a model that streams the given chunks and a verifier that passes every report. -/

structure ClaimlessDraft where
  title : String
  executiveSummary : String

/-- `decode_draft`, for a document with the fields of a draft or without a title. -/
def decodeClaimless (arguments : Json) : Except String ClaimlessDraft :=
  match (arguments.get? "title").bind Json.asStr,
    (arguments.get? "executive_summary").bind Json.asStr with
  | none, _ => .error ".: missing field `title`"
  | some _, none => .error ".: missing field `executive_summary`"
  | some title, some executiveSummary => .ok { title, executiveSummary }

def claimlessReports : Reports where
  Catalog := Unit
  Query := Unit
  Draft := ClaimlessDraft
  Problem := Empty
  Rendered := ClaimlessDraft
  emptyCatalog := ()
  ingest := fun _ _ _ => ()
  decodeQuery := fun _ => .error "no query"
  search := fun _ _ => .null
  decodeDraft := decodeClaimless
  validateDraft := fun _ _ _ => []
  problemCode := Empty.elim
  problemClaimId := Empty.elim
  fingerprint := fun draft => (Json.obj [
    ("version", .str "astock-report-contract-v1"), ("title", .str draft.title),
    ("executive_summary", .str draft.executiveSummary), ("sections", .arr []),
    ("claims", .arr [])]).toText
  validationRepair := fun _ _ => .null
  verificationRepair := fun _ _ _ => .null
  cited := fun _ => []
  verifierFacts := fun _ _ => []
  render := fun draft _ => draft
  markdown := fun draft => s!"# {draft.title}\n\n{draft.executiveSummary}\n\n"
  verifierMarkdown := fun draft => s!"{draft.title}\n"
  sectionSizes := fun _ => []
  references := fun _ => []

def sampleDraft : Json := .obj [
  ("claims", .arr []), ("executive_summary", .str "Nothing to report."), ("sections", .arr []),
  ("title", .str "Report")]

def samplePlatform : RuntimePlatform where
  toPlatform := .inOrder id
  parseJson := fun text =>
    if text = "{}" then .ok (.obj [])
    else if text = sampleDraft.toText then .ok sampleDraft
    else .error "expected value at line 1 column 1"
  rfc3339 := fun _ => "1970-01-01T00:00:00+00:00"
  date := fun now => if now = 0 then "1970-01-01" else "1969-01-01"
  lastInstant := 8210266876799999999999

/-- Surroundings in which all goes well; the model streams a chunk at each given tick. -/
def sampleEnv (chunks : List (ℕ × ModelChunk)) : Env where
  cancelAt := none
  consumerGoneAt := none
  prefersCancel := fun _ => false
  storeFault := fun _ => none
  uuid := fun t => s!"effect-{t}"
  now := fun _ => 0
  selectedModel := fun _ => some (.ok "model")
  stream := fun _ _ => some (.ok ())
  next := fun t => some ((chunks.lookup t).map .ok)
  execute := fun _ kind _ =>
    if kind = "research.agent_report_verify" then
      some (.ok (.obj [("findings", .arr []), ("passed", .bool true)]))
    else none
  pick := fun _ => 0

def sampleRuntime (env : Env) (config : RuntimeConfig) : AgentRuntime where
  platform := samplePlatform
  reports := claimlessReports
  env := env
  config := config
  providerName := "provider"
  systemPrompt := fun _ => "prompt"

def sampleTask : RuntimeTask := { objective := "Report on the market." }

def submitChunk (index : ℕ) (id arguments : String) : ModelChunk :=
  .toolCallDelta index (some id) (some "submit_report") (some arguments)

/-- A batch of one submission, of a document that is not a draft. -/
def oneSubmission : List (ℕ × ModelChunk) := [(25, submitChunk 0 "call-1" "{}")]

/-- A batch of two submissions, of a document that is not a draft and of one that is. -/
def twoSubmissions : List (ℕ × ModelChunk) := [
  (25, submitChunk 0 "call-1" "{}"), (27, submitChunk 1 "call-2" sampleDraft.toText)]

/-! ## Requests -/

/-- What a run has said is sound. -/
theorem runTask_sound (h : EngineStore.Reachable A.platform.toPlatform store)
    (hnew : store.hasTask t = false) (hrun : A.runTask store t task = (result, w)) :
    ∃ ledger, Sound A.allowance (viewOf w.trace ledger) := by
  rcases runTask_cases h hnew task hrun with ⟨_, -, rfl | ⟨-, now, input, answer, htrace, -⟩⟩ |
    ⟨_, -, v, -, -, hr, -⟩ | ⟨e, e', w₀, -, hstop, hclosed⟩
  · exact ⟨_, sound_start⟩
  · rw [htrace]; exact ⟨_, sound_start⟩
  · exact ⟨v.ledger, hr.view ▸ hr.sound⟩
  · exact ⟨_, hclosed.view ▸ hstop.2.sound⟩

/-- **Tool protocol completeness.** In every run, each request goes on from the
messages of the request that a turn answered with the turn and, before the next
message of the assistant, one result for each of its calls and no other. -/
theorem requests_answered (A : AgentRuntime) (store : EngineStore)
    (h : EngineStore.Reachable A.platform.toPlatform store) (taskId : String)
    (hnew : store.hasTask taskId = false) (task : RuntimeTask) :
    RequestsOK ((A.runTask store taskId task).2.trace.filter Obs.isDialogue) := by
  generalize hrun : A.runTask store taskId task = p
  obtain ⟨ledger, hsound⟩ := runTask_sound h hnew hrun
  exact hsound.requests

/-- A run whose model submits once, and says nothing in the rounds after. -/
def repaired : AgentRuntime := sampleRuntime (sampleEnv oneSubmission) {}

/-- The submission of the first round is answered in the request of the second. -/
theorem repaired_answered :
    RequestsOK ((repaired.runTask {} "task-1" sampleTask).2.trace.filter Obs.isDialogue) :=
  requests_answered repaired {} ⟨[], rfl⟩ "task-1" rfl sampleTask

/-! ## Publication -/

/-- A run that fails closed: once a verdict was exhausted nothing is published, and
drafts are validated within the allowance. -/
structure FailsClosed (allowance : ℕ) (t : String) (result : Except RuntimeError RunOutcome)
    {C : Type} (w : World C) : Prop where
  unpublished : ¬ Unexhausted w.trace →
    (∀ e ∈ w.store.eventsOf t, e.eventKind ≠ "completed") ∧ ∀ outcome, result ≠ .ok outcome
  bounded : validatedCount w.trace ≤ allowance

theorem heeded_filter {trace : List Obs} (h : Heeded trace) : Heeded (trace.filter Obs.isReport) :=
  fun ledger hmem => h ledger (List.mem_filter.1 hmem).1

theorem unexhausted_filter {trace : List Obs} (h : Unexhausted (trace.filter Obs.isReport)) :
    Unexhausted trace := fun attempt reason hmem =>
  h attempt reason (List.mem_filter.2 ⟨hmem, rfl⟩)

theorem validatedCount_filter (trace : List Obs) :
    validatedCount (trace.filter Obs.isReport) = validatedCount trace := by
  rw [validatedCount, List.countP_filter]
  refine List.countP_congr fun o _ => ?_
  cases o <;> simp [Obs.isValidated, Obs.isReport]

/-- A new task has no events. -/
theorem eventsOf_new (h : EngineStore.Reachable A.platform.toPlatform store)
    (hnew : store.hasTask t = false) : store.eventsOf t = [] := by
  refine List.filter_eq_nil_iff.2 fun e he heq => ?_
  have hhas := (reachable_rooted h).events e he
  rw [of_decide_eq_true heq, hnew] at hhas
  simp at hhas

/-- Recording the end of a stopped task adds no `Completed` event. -/
theorem Closed.completed {P : Platform} {e : RuntimeError} {w₀ : World A.reports.Catalog}
    (h : Closed P e w₀ w) {row : EventRow} (hrow : row ∈ w.store.eventsOf w₀.run.taskId)
    (hkind : row.eventKind = "completed") : row ∈ w₀.store.eventsOf w₀.run.taskId := by
  have happended : ∀ {event phase u s}, Closing w₀ u event phase →
      Appended P u.store u.run.taskId event.kind s → row ∈ s.eventsOf w₀.run.taskId →
      row ∈ w₀.store.eventsOf w₀.run.taskId := by
    intro event phase u s hclosing happ hmem
    obtain ⟨last, hlast, hlog⟩ := happ.log
    rw [hclosing.taskId, hclosing.store] at hlog
    rw [hlog] at hmem
    rcases List.mem_append.1 hmem with hmem | hmem
    · exact hmem
    · -- the event that was added ends the task otherwise
      obtain rfl := List.mem_singleton.1 hmem
      have hends : event.ends = some phase.asStr := by
        rw [AgentEvent.ends, hclosing.terminal]; rfl
      have hphase : phase.asStr = "completed" :=
        (AgentEvent.ends_eq_some hends).1.symm.trans (hlast.symm.trans hkind)
      have hne := hclosing.notCompleted
      cases phase <;> simp [AgentPhase.asStr] at hphase hne
  have hrecorded : ∀ {event phase u delivered}, Closing w₀ u event phase →
      Recorded P event delivered u w → row ∈ w₀.store.eventsOf w₀.run.taskId := by
    intro event phase u delivered hclosing hrec
    obtain ⟨s, happ, hacc⟩ := hrec.stored
    refine happended hclosing happ ?_
    rwa [EngineStore.eventsOf, hacc.events] at hrow
  cases h with
  | silent _ hw => subst hw; exact hrow
  | recorded event phase u hclosing hrec => exact hrecorded hclosing hrec
  | failed event phase u e' hclosing herr =>
    cases herr with
    | unappended now answer text hrun hstore hfail htrace =>
      rwa [hstore, hclosing.store] at hrow
    | unaccepted now now' answer text hrun hin happ hfail htrace => exact happended hclosing happ hrow
    | undelivered hrec => exact hrecorded hclosing hrec

/-- What a run publishes could be published. -/
theorem runTask_published (h : EngineStore.Reachable A.platform.toPlatform store)
    (hnew : store.hasTask t = false) (hrun : A.runTask store t task = (result, w))
    (hpub : (∃ e ∈ w.store.eventsOf t, e.eventKind = "completed") ∨ ∃ outcome, result = .ok outcome)
    (hheed : Heeded w.trace) : Unexhausted w.trace := by
  rcases runTask_cases h hnew task hrun with ⟨_, hres, hstart⟩ | ⟨_, -, v, -, hpubl, hr, -⟩ |
    ⟨e, e', w₀, hres, ⟨rfl, hhalt⟩, hclosed⟩
  · rcases hpub with ⟨row, hrow, -⟩ | ⟨outcome, hok⟩
    · have hstore : w.store = store := by
        rcases hstart with rfl | ⟨hstore, -⟩
        · rfl
        · exact hstore
      rw [hstore, eventsOf_new h hnew] at hrow
      simp at hrow
    · rw [hres] at hok; simp at hok
  · have hview := congrArg View.reports hr.view
    refine unexhausted_filter ?_
    rw [show w.trace.filter Obs.isReport = v.reports from hview]
    exact hpubl (hview ▸ heeded_filter hheed)
  · rcases hpub with ⟨row, hrow, hkind⟩ | ⟨outcome, hok⟩
    · have hold := hclosed.completed hrow hkind
      have hviews := congrArg View.reports hclosed.view
      have hterm : ¬ Unfinished w₀.run.taskId w₀.store := fun hun =>
        hun row hold (by rw [hkind]; simp [TerminalKind])
      have hpubl : Publishable (viewOf w₀.trace w₀.run.finalization) := by
        cases hhalt.cause with
        | gaveUp _ _ _ hlog => exact (hlog.resolve_left hterm).1
        | failed _ _ _ _ _ _ _ _ hlog => exact hlog.resolve_left hterm
      refine unexhausted_filter ?_
      rw [show w.trace.filter Obs.isReport = w₀.trace.filter Obs.isReport from hviews]
      refine hpubl ?_
      rw [show (viewOf w₀.trace w₀.run.finalization).reports = w.trace.filter Obs.isReport from hviews.symm]
      exact heeded_filter hheed
    · rw [hres] at hok; simp at hok

/-- **Finalization fails closed** in every run in which no submission is handled with
a spent ledger. -/
theorem failsClosed_of_heeded (A : AgentRuntime) (store : EngineStore)
    (h : EngineStore.Reachable A.platform.toPlatform store) (taskId : String)
    (hnew : store.hasTask taskId = false) (task : RuntimeTask)
    (hheed : Heeded (A.runTask store taskId task).2.trace) :
    FailsClosed A.allowance taskId (A.runTask store taskId task).1
      (A.runTask store taskId task).2 := by
  generalize hrun : A.runTask store taskId task = p at hheed ⊢
  obtain ⟨result, w⟩ := p
  constructor
  · intro hexh
    by_contra hpub
    refine hexh (runTask_published h hnew hrun ?_ hheed)
    by_contra hnone
    push Not at hnone
    exact hpub ⟨hnone.1, hnone.2⟩
  · obtain ⟨ledger, hsound⟩ := runTask_sound h hnew hrun
    rw [← validatedCount_filter]
    exact hsound.bounded (heeded_filter hheed)

/-- A run whose only submission spends the ledger. -/
def spentLedger : AgentRuntime :=
  sampleRuntime (sampleEnv oneSubmission) { maxFinalizationAttempts := 1 }

theorem spentLedger_failsClosed :
    FailsClosed spentLedger.allowance "task-1" (spentLedger.runTask {} "task-1" sampleTask).1
      (spentLedger.runTask {} "task-1" sampleTask).2 :=
  failsClosed_of_heeded spentLedger {} ⟨[], rfl⟩ "task-1" rfl sampleTask (by decide +kernel)

/-- A run that spends the ledger, and goes on to the other submission of the batch. -/
def secondSubmission : AgentRuntime :=
  sampleRuntime (sampleEnv twoSubmissions) { maxFinalizationAttempts := 1 }

def Obs.isExhausted : Obs → Bool
  | .verdict v => v.isExhausted
  | _ => false

theorem Unexhausted.any {trace : List Obs} (h : Unexhausted trace) :
    trace.any Obs.isExhausted = false := by
  refine List.any_eq_false.2 fun o ho hexh => ?_
  cases o with
  | verdict v =>
    cases v with
    | retry _ _ _ => simp [Obs.isExhausted, RepairVerdict.isExhausted] at hexh
    | exhausted attempt reason => exact h attempt reason ho
  | _ => simp [Obs.isExhausted] at hexh

/-- **A batch goes on after its ledger is spent**: the second submission is published. -/
theorem secondSubmission_published :
    ¬ ∀ (A : AgentRuntime) (store : EngineStore),
      EngineStore.Reachable A.platform.toPlatform store → ∀ taskId, store.hasTask taskId = false →
        ∀ task, FailsClosed A.allowance taskId (A.runTask store taskId task).1
          (A.runTask store taskId task).2 := by
  intro h
  have hclosed := h secondSubmission {} ⟨[], rfl⟩ "task-1" rfl sampleTask
  have hrun : (secondSubmission.runTask {} "task-1" sampleTask).2.trace.any Obs.isExhausted = true ∧
      (secondSubmission.runTask {} "task-1" sampleTask).1.isOk = true := by decide +kernel
  generalize secondSubmission.runTask {} "task-1" sampleTask = p at hclosed hrun
  obtain ⟨result, w⟩ := p
  obtain ⟨hexh, hok⟩ := hrun
  have hun : ¬ Unexhausted w.trace := fun hun => absurd (hun.any.symm.trans hexh) Bool.false_ne_true
  cases result with
  | ok outcome => exact (hclosed.unpublished hun).2 outcome rfl
  | error e => exact absurd hok Bool.false_ne_true

end Astock
