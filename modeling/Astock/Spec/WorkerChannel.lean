import Astock.Lib.Json
import Astock.Lib.Text

/-!
# The worker channel

`crates/engine/src/main.rs`: the loop of `run` reads requests one by one and answers each itself or
spawns a task for it; the tasks go on concurrently. A move of the channel is what the loop or one task
does up to its next wait for a frame, for a permit, for the lock of `cancellations` or for the
writer. A `CancellationToken` is the number of the task that waits for it.
-/

namespace Astock.Worker

structure RequestEnvelope where
  protocolVersion : ℕ
  requestId : String
  kind : String
  payload : Json
  deadlineMs : Option ℕ := none
  cancellationId : Option String := none

structure ErrorBody where
  code : String
  message : String
  retryable : Bool

structure ResponseEnvelope where
  protocolVersion : ℕ
  requestId : String
  kind : String
  ok : Bool
  payload : Json
  error : Option ErrorBody

def protocolVersion : ℕ := 1

def ResponseEnvelope.success (request : RequestEnvelope) (payload : Json) : ResponseEnvelope where
  protocolVersion := Worker.protocolVersion
  requestId := request.requestId
  kind := request.kind
  ok := true
  payload := payload
  error := none

def ResponseEnvelope.failure (request : RequestEnvelope) (code message : String) (retryable : Bool) :
    ResponseEnvelope where
  protocolVersion := Worker.protocolVersion
  requestId := request.requestId
  kind := request.kind
  ok := false
  payload := .null
  error := some { code := code, message := message, retryable := retryable }

/-- `Engine::dispatch`, from what `dispatch_inner` returns. -/
def dispatch (request : RequestEnvelope) (inner : Except ErrorBody Json) : ResponseEnvelope :=
  if request.protocolVersion ≠ protocolVersion then
    .failure request "protocol_version_mismatch"
      s!"engine requires protocol {protocolVersion}, received {request.protocolVersion}" false
  else
    match inner with
    | .ok payload => .success request payload
    | .error error => .failure request error.code error.message error.retryable

/-! ## The replay window -/

structure ReplayWindow where
  capacity : ℕ
  /-- The oldest first. -/
  order : List String
  seen : Finset String

def ReplayWindow.new (capacity : ℕ) : ReplayWindow where
  capacity := max capacity 1
  order := []
  seen := ∅

def ReplayWindow.insert (window : ReplayWindow) (requestId : String) : Bool × ReplayWindow :=
  if requestId ∈ window.seen then (false, window)
  else
    let seen := Insert.insert requestId window.seen
    let order := window.order ++ [requestId]
    if window.capacity < order.length then
      match order with
      | expired :: order => (true, { window with order := order, seen := seen.erase expired })
      | [] => (true, { window with order := order, seen := seen })
    else (true, { window with order := order, seen := seen })

/-! ## The loop and its tasks -/

/-- Where the loop is. -/
inductive Reader
  | reading
  /-- A response waits for the writer; the loop ends with the last one. -/
  | writing (response : ResponseEnvelope) (last : Bool)
  | cancelling (request : RequestEnvelope) (cancellationId : String)
  | acquiring (request : RequestEnvelope)
  | registering (request : RequestEnvelope)
  /-- The permit and the lock of `cancellations` are held until the response is written. -/
  | refusing (response : ResponseEnvelope)
  | stopped

/-- Where a task is. -/
inductive Stage
  | running
  | deregistering (response : ResponseEnvelope)
  | responding (response : ResponseEnvelope)
  | finished

structure Task where
  request : RequestEnvelope
  /-- Its token is cancelled. -/
  cancelled : Bool := false
  stage : Stage := .running

structure Channel where
  requestIds : ReplayWindow := .new 4096
  permits : ℕ := 256
  /-- The tasks whose tokens are registered, by cancellation id. -/
  cancellations : List (String × ℕ) := []
  /-- All that were spawned, in order. -/
  tasks : List Task := []
  reader : Reader := .reading
  /-- The requests read, and the ids of those that were new. -/
  received : List RequestEnvelope := []
  accepted : List String := []
  /-- The responses written, and those that could not be written. -/
  written : List ResponseEnvelope := []
  lost : List ResponseEnvelope := []

inductive TaskMove
  | dispatched (inner : Except ErrorBody Json)
  | expired
  | cancelled
  | deregister
  | respond (sent : Bool)

inductive Move
  | read (request : RequestEnvelope)
  /-- The end of the input, or a frame that cannot be read. -/
  | eof
  | write (sent : Bool)
  | cancel
  | acquire
  | register
  | task (n : ℕ) (move : TaskMove)

namespace Channel

def record (s : Channel) (response : ResponseEnvelope) (sent : Bool) : Channel :=
  { s with
    written := if sent then s.written ++ [response] else s.written
    lost := if sent then s.lost else s.lost ++ [response] }

/-- What the loop does with a request before its next wait. -/
def receive (s : Channel) (request : RequestEnvelope) : Channel :=
  let s := { s with received := s.received ++ [request] }
  let reply (s : Channel) (response : ResponseEnvelope) (last : Bool) : Channel :=
    { s with reader := .writing response last }
  if Text.trim request.requestId = "" then
    reply s (.failure request "invalid_request_id" "request_id must not be empty" false) false
  else
    let (fresh, requestIds) := s.requestIds.insert request.requestId
    if !fresh then
      reply s (.failure request "duplicate_request_id"
        "request_id was already observed on this Worker channel" false) false
    else
      let s := { s with requestIds := requestIds, accepted := s.accepted ++ [request.requestId] }
      if request.kind = "system.shutdown" then
        reply s (.success request (.obj [("accepted", .bool true)])) true
      else if request.kind = "system.cancel" then
        match (request.payload.get? "cancellation_id").bind Json.asStr with
        | some cancellationId => { s with reader := .cancelling request cancellationId }
        | none =>
          reply s (.failure request "invalid_request" "cancellation_id is required" false) false
      else { s with reader := .acquiring request }

def unregister (s : Channel) (cancellationId : String) : Channel :=
  { s with cancellations := s.cancellations.filter fun entry => entry.1 ≠ cancellationId }

def cancelToken (s : Channel) (n : ℕ) : Channel :=
  { s with tasks := s.tasks.modify n fun task => { task with cancelled := true } }

/-- `system.cancel`, under the lock. -/
def cancel (s : Channel) (request : RequestEnvelope) (cancellationId : String) : Channel :=
  match s.cancellations.lookup cancellationId with
  | some n =>
    { (s.unregister cancellationId).cancelToken n with
      reader := .writing (.success request (.obj [("cancelled", .bool true)])) false }
  | none => { s with reader := .writing (.success request (.obj [("cancelled", .bool false)])) false }

def spawn (s : Channel) (request : RequestEnvelope) : Channel :=
  { s with tasks := s.tasks ++ [{ request := request }], reader := .reading }

def register (s : Channel) (request : RequestEnvelope) : Channel :=
  match request.cancellationId with
  | none => s.spawn request
  | some id =>
    if (s.cancellations.lookup id).isSome then
      { s with
        reader := .refusing (.failure request "duplicate_cancellation_id"
          "cancellation_id is already active" false) }
    else { s.spawn request with cancellations := (id, s.tasks.length) :: s.cancellations }

def setStage (s : Channel) (n : ℕ) (stage : Stage) : Channel :=
  { s with tasks := s.tasks.modify n fun task => { task with stage := stage } }

/-- The response of a task is there; a task without a cancellation id has none to take out. -/
def settle (s : Channel) (n : ℕ) (task : Task) (response : ResponseEnvelope) : Channel :=
  s.setStage n
    (if task.request.cancellationId.isSome then .deregistering response else .responding response)

def taskStep (s : Channel) (n : ℕ) (task : Task) : TaskMove → Option Channel
  | .dispatched inner =>
    match task.stage with
    | .running => some (s.settle n task (dispatch task.request inner))
    | _ => none
  | .expired =>
    match task.stage with
    | .running =>
      if task.request.deadlineMs.isSome then
        some (s.settle n task (.failure task.request "deadline_exceeded"
          "Engine request exceeded its declared deadline" true))
      else none
    | _ => none
  | .cancelled =>
    match task.stage with
    | .running =>
      if task.cancelled then
        some (s.settle n task (.failure task.request "cancelled" "Engine request was cancelled" true))
      else none
    | _ => none
  | .deregister =>
    match task.stage, s.reader, task.request.cancellationId with
    | .deregistering _, .refusing _, _ => none
    | .deregistering response, _, some id => some ((s.unregister id).setStage n (.responding response))
    | _, _, _ => none
  | .respond sent =>
    match task.stage with
    | .responding response =>
      some { (s.record response sent).setStage n .finished with permits := s.permits + 1 }
    | _ => none

/-- A write of the loop that fails ends it. -/
def step (s : Channel) (move : Move) : Option Channel :=
  match s.reader, move with
  | .reading, .read request => some (s.receive request)
  | .reading, .eof => some { s with reader := .stopped }
  | .writing response last, .write sent =>
    some { s.record response sent with reader := if sent && !last then .reading else .stopped }
  | .cancelling request id, .cancel => some (s.cancel request id)
  | .acquiring request, .acquire =>
    if 0 < s.permits then
      some { s with permits := s.permits - 1, reader := .registering request }
    else none
  | .registering request, .register => some (s.register request)
  | .refusing response, .write sent =>
    some { s.record response sent with
      permits := s.permits + 1
      reader := if sent then .reading else .stopped }
  | _, .task n move => s.tasks[n]?.bind fun task => s.taskStep n task move
  | _, _ => none

end Channel

end Astock.Worker
