import Astock.Spec.Runtime
import Astock.Spec.SessionStore

/-!
# A turn of a session

`start_session_turn` and `apply_session_event` of `crates/agent-runtime/src/runtime.rs`. A turn
validates the session, gives the model its history, and saves it with the new message; then the
task runs, and the turn keeps the session in step with the events that it receives.
-/

namespace Astock

open Prog

/-! ## Events -/

/-- What an event does to the state of the task in the session. -/
def SessionTaskState.apply (task : SessionTaskState) (event : AgentEvent) : SessionTaskState :=
  let task := { task with acceptedSeq := task.acceptedSeq + 1 }
  match event with
  | .sessionStarted _ _ | .userMessageAccepted => { task with phase := .preparing }
  | .planningStarted | .planUpdated _ => { task with phase := .planning }
  | .modelStarted _ round => { task with phase := .reasoning, modelRound := round }
  | .modelTurnEmpty _ _ _ => { task with phase := .reasoning }
  | .toolScheduled _ _ | .toolStarted _ _ => { task with phase := .awaitingTools }
  | .toolCompleted callId _ evidenceIds =>
    { task with
      phase := .awaitingTools
      completedToolIds :=
        if callId ∈ task.completedToolIds then task.completedToolIds
        else task.completedToolIds ++ [callId]
      evidenceIds := sortedIds (task.evidenceIds ++ evidenceIds) }
  | .toolFailed _ _ _ _ | .evidenceAdded _ _ => { task with phase := .awaitingTools }
  | .verificationStarted | .verificationFinding _ => { task with phase := .verifying }
  | .textDelta _ => task
  | .suspended _ resumeAt fault =>
    { task with phase := .suspended, resumeAt := resumeAt, suspendedBy := fault }
  | .cancelled => { task with phase := .cancelled }
  | .completed _ evidenceIds => { task with phase := .completed, evidenceIds := evidenceIds }
  | .failed _ => { task with phase := .failed }

/-- The report of a completed task. -/
def AgentEvent.report : AgentEvent → Option String
  | .completed report _ => some report
  | _ => none

def AgentEvent.isText : AgentEvent → Bool
  | .textDelta _ => true
  | _ => false

def applySessionEvent (stamp : Stamp) (session : RuntimeSession) (event : AgentEvent) :
    RuntimeSession :=
  match session.task with
  | none => session
  | some task =>
    let session := { session with task := some (task.apply event) }
    let session := match event.report with
      | some report => session.pushMessage stamp .agent report
      | none => session
    { session with updatedAt := stamp.now }

/-! ## The start of a turn -/

/-- What the clock and the generator of ids give in a turn. -/
structure TurnClock where
  refreshed : Int64
  pushed : Stamp
  /-- When an event is handled, by its position. -/
  handled : ℕ → Stamp

/-- The state of a task before its first event. -/
def SessionTaskState.new (taskId : String) : SessionTaskState where
  taskId := taskId
  phase := .preparing
  acceptedSeq := 0
  modelRound := 0
  completedToolIds := []
  evidenceIds := []
  resumeAt := none
  suspendedBy := none

/-- Give a task that has no history the history of the session. -/
def withHistory (now : Int64) (session : RuntimeSession) (task : RuntimeTask) :
    RuntimeSession × RuntimeTask :=
  if task.history.isEmpty then
    let session := session.refreshCompactedSummary now
    (session, { task with historySummary := session.summary, history := session.modelHistory })
  else (session, task)

/-- The session that a turn saves first, and the task that it starts. -/
def prepareTurn (clock : TurnClock) (taskId : String) (session : RuntimeSession)
    (task : RuntimeTask) : Except RuntimeError (RuntimeSession × RuntimeTask) := do
  session.validate
  task.validate
  let session := session.ensureTitle task.objective
  let (session, task) := withHistory clock.refreshed session task
  task.validate
  let session := session.pushMessage clock.pushed .user (Text.trim task.objective)
  let session := { session with
    input := ""
    depth := task.depth
    toolPolicy := task.toolPolicy
    task := some (.new taskId) }
  session.validate
  pure (session, task)

/-! ## The turn -/

/-- The session after some events, the first of them handled at `n`. -/
def sessionAfter (clock : TurnClock) (n : ℕ) (session : RuntimeSession) :
    List AgentEvent → RuntimeSession
  | [] => session
  | event :: rest => sessionAfter clock (n + 1) (applySessionEvent (clock.handled n) session event) rest

/-- The sessions that are saved while some events are handled: all but those after a piece of
text. -/
def savedAlong (clock : TurnClock) (n : ℕ) (session : RuntimeSession) :
    List AgentEvent → List RuntimeSession
  | [] => []
  | event :: rest =>
    let session := applySessionEvent (clock.handled n) session event
    (if event.isText then [] else [session]) ++ savedAlong clock (n + 1) session rest

/-- The events that reach the turn. -/
def sentEvents (trace : List Obs) : List AgentEvent := trace.filterMap fun o => match o with
  | .notify event true => some event
  | _ => none

/-- One call of `start_session_turn`, with what surrounds it. A save that fails, or a consumer
that is gone, ends the turn after some of the events. -/
structure SessionTurn where
  runtime : AgentRuntime
  /-- The rows when the task starts. -/
  store : EngineStore
  taskId : Uuid
  task : RuntimeTask
  clock : TurnClock
  /-- How many events the turn handles. -/
  handles : ℕ

namespace SessionTurn

variable (turn : SessionTurn)

def prepare (session : RuntimeSession) : Except RuntimeError (RuntimeSession × RuntimeTask) :=
  prepareTurn turn.clock turn.taskId.text session turn.task

/-- The run of the task. -/
def run (task : RuntimeTask) : Except RuntimeError RunOutcome × World turn.runtime.reports.Catalog :=
  turn.runtime.runTask turn.store turn.taskId.text task

/-- The events that the turn handles. -/
def events (task : RuntimeTask) : List AgentEvent :=
  (sentEvents (turn.run task).2.trace).take turn.handles

/-- The turn handles every event that is sent. -/
def handlesAll (task : RuntimeTask) : Bool := (sentEvents (turn.run task).2.trace).length ≤ turn.handles

/-- The sessions that the turn hands to `save_session`, in order. -/
def saves (session : RuntimeSession) : List RuntimeSession :=
  match turn.prepare session with
  | .error _ => []
  | .ok (session, task) =>
    session :: savedAlong turn.clock 0 session (turn.events task) ++
      if (turn.run task).1.isOk && turn.handlesAll task then
        [sessionAfter turn.clock 0 session (turn.events task)]
      else []

end SessionTurn

end Astock
