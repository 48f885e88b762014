import Astock.Lib.Slots
import Astock.Lib.Trace
import Astock.Spec.WorkerChannel
import Mathlib.Data.List.DropRight

/-!
# The worker channel answers every request once

For every order in which the loop and its tasks take their turns.

* `answered_once`: each request read is answered once, or its response could not be written, or it is
  still owed one; `ids_spaced`: an id is not taken up again while it is among the last 4096.
* `drained`: without new requests the channel comes to rest after boundedly many moves, with all
  permits back, no token registered and nothing owed.
* `cancels_counted`, `cancel_reaches`: each confirmed cancellation cancels one task of its own, and it
  reaches every running task whose id no cancelled task still carries.
-/

namespace Astock.Worker

variable {s s' : Channel} {move : Move} {moves : List Move}

/-! ## What a move does -/

def RequestEnvelope.key (request : RequestEnvelope) : String × String :=
  (request.requestId, request.kind)

def ResponseEnvelope.key (response : ResponseEnvelope) : String × String :=
  (response.requestId, response.kind)

@[simp] theorem key_success (request : RequestEnvelope) (payload : Json) :
    (ResponseEnvelope.success request payload).key = request.key := rfl

@[simp] theorem key_failure (request : RequestEnvelope) (code message : String) (retryable : Bool) :
    (ResponseEnvelope.failure request code message retryable).key = request.key := rfl

@[simp] theorem key_dispatch (request : RequestEnvelope) (inner : Except ErrorBody Json) :
    (dispatch request inner).key = request.key := by
  unfold dispatch
  split
  · rfl
  · cases inner <;> rfl

/-- A move of the channel, with what it starts from. -/
inductive Moves (s : Channel) : Move → Channel → Prop
  | read (request : RequestEnvelope) (h : s.reader = .reading) :
    Moves s (.read request) (s.receive request)
  | eof (h : s.reader = .reading) : Moves s .eof { s with reader := .stopped }
  | write {response : ResponseEnvelope} {last : Bool} (sent : Bool)
    (h : s.reader = .writing response last) :
    Moves s (.write sent)
      { s.record response sent with reader := if sent && !last then .reading else .stopped }
  | cancel {request : RequestEnvelope} {id : String} (h : s.reader = .cancelling request id) :
    Moves s .cancel (s.cancel request id)
  | acquire {request : RequestEnvelope} (h : s.reader = .acquiring request) (hpermits : 0 < s.permits) :
    Moves s .acquire { s with permits := s.permits - 1, reader := .registering request }
  | register {request : RequestEnvelope} (h : s.reader = .registering request) :
    Moves s .register (s.register request)
  | refuse {response : ResponseEnvelope} (sent : Bool) (h : s.reader = .refusing response) :
    Moves s (.write sent)
      { s.record response sent with
        permits := s.permits + 1
        reader := if sent then .reading else .stopped }
  | settle {n : ℕ} {task : Task} {response : ResponseEnvelope} (move : TaskMove)
    (htask : s.tasks[n]? = some task) (hstage : task.stage = .running)
    (hkey : response.key = task.request.key) :
    Moves s (.task n move) (s.settle n task response)
  | deregister {n : ℕ} {task : Task} {response : ResponseEnvelope} {id : String}
    (htask : s.tasks[n]? = some task) (hstage : task.stage = .deregistering response)
    (hid : task.request.cancellationId = some id) (hlock : ∀ response, s.reader ≠ .refusing response) :
    Moves s (.task n .deregister) ((s.unregister id).setStage n (.responding response))
  | respond {n : ℕ} {task : Task} {response : ResponseEnvelope} (sent : Bool)
    (htask : s.tasks[n]? = some task) (hstage : task.stage = .responding response) :
    Moves s (.task n (.respond sent))
      { (s.record response sent).setStage n .finished with permits := s.permits + 1 }

theorem moves_task {n : ℕ} {task : Task} {m : TaskMove} (htask : s.tasks[n]? = some task)
    (h : s.taskStep n task m = some s') : Moves s (.task n m) s' := by
  unfold Channel.taskStep at h
  cases m with
  | dispatched inner =>
    dsimp only at h
    split at h
    · rename_i hstage
      obtain rfl := Option.some.inj h
      exact .settle _ htask hstage (key_dispatch _ _)
    · exact nomatch h
  | expired =>
    dsimp only at h
    split at h
    · rename_i hstage
      split at h
      · obtain rfl := Option.some.inj h
        exact .settle _ htask hstage (key_failure _ _ _ _)
      · exact nomatch h
    · exact nomatch h
  | cancelled =>
    dsimp only at h
    split at h
    · rename_i hstage
      split at h
      · obtain rfl := Option.some.inj h
        exact .settle _ htask hstage (key_failure _ _ _ _)
      · exact nomatch h
    · exact nomatch h
  | deregister =>
    dsimp only at h
    split at h
    · exact nomatch h
    · rename_i hstage hid hlock
      obtain rfl := Option.some.inj h
      exact .deregister htask hstage hid fun response hreader => hlock response hreader
    · exact nomatch h
  | respond sent =>
    dsimp only at h
    split at h
    · rename_i hstage
      obtain rfl := Option.some.inj h
      exact .respond sent htask hstage
    · exact nomatch h

theorem moves_step (h : s.step move = some s') : Moves s move s' := by
  unfold Channel.step at h
  split at h
  · rename_i hreader
    obtain rfl := Option.some.inj h
    exact .read _ hreader
  · rename_i hreader
    obtain rfl := Option.some.inj h
    exact .eof hreader
  · rename_i hreader
    obtain rfl := Option.some.inj h
    exact .write _ hreader
  · rename_i hreader
    obtain rfl := Option.some.inj h
    exact .cancel hreader
  · rename_i hreader
    split at h
    · rename_i hpermits
      obtain rfl := Option.some.inj h
      exact .acquire hreader hpermits
    · exact nomatch h
  · rename_i hreader
    obtain rfl := Option.some.inj h
    exact .register hreader
  · rename_i hreader
    obtain rfl := Option.some.inj h
    exact .refuse _ hreader
  · obtain ⟨task, htask, htaskStep⟩ := Option.bind_eq_some_iff.1 h
    exact moves_task htask htaskStep
  · exact nomatch h

/-- What the loop does with a request changes neither the permits nor the tasks nor what is written. -/
structure Received (s : Channel) (request : RequestEnvelope) (s' : Channel) : Prop where
  received : s'.received = s.received ++ [request]
  permits : s'.permits = s.permits
  cancellations : s'.cancellations = s.cancellations
  tasks : s'.tasks = s.tasks
  written : s'.written = s.written
  lost : s'.lost = s.lost
  reader : (∃ response last, s'.reader = .writing response last ∧ response.key = request.key ∧
      ∀ confirmed, response.payload ≠ .obj [("cancelled", confirmed)]) ∨
    (∃ id, s'.reader = .cancelling request id ∧ request.kind = "system.cancel") ∨
    s'.reader = .acquiring request ∧ request.kind ≠ "system.cancel"

theorem received_receive (s : Channel) (request : RequestEnvelope) :
    Received s request (s.receive request) := by
  unfold Channel.receive
  dsimp only
  split
  · exact ⟨rfl, rfl, rfl, rfl, rfl, rfl, .inl ⟨_, _, rfl, rfl, fun _ => nofun⟩⟩
  split
  · exact ⟨rfl, rfl, rfl, rfl, rfl, rfl, .inl ⟨_, _, rfl, rfl, fun _ => nofun⟩⟩
  split
  · refine ⟨rfl, rfl, rfl, rfl, rfl, rfl, .inl ⟨_, _, rfl, rfl, fun _ => ?_⟩⟩
    simp [ResponseEnvelope.success]
  split
  · rename_i hkind
    split
    · exact ⟨rfl, rfl, rfl, rfl, rfl, rfl, .inr (.inl ⟨_, rfl, hkind⟩)⟩
    · exact ⟨rfl, rfl, rfl, rfl, rfl, rfl, .inl ⟨_, _, rfl, rfl, fun _ => nofun⟩⟩
  · rename_i hkind
    exact ⟨rfl, rfl, rfl, rfl, rfl, rfl, .inr (.inr ⟨rfl, hkind⟩)⟩

/-! ## Weights -/

/-- What the permits, the responses, the loop and the tasks weigh together. -/
def Channel.weight (p : ℕ) (r : ResponseEnvelope → ℕ) (f : Reader → ℕ) (g : Task → ℕ) (s : Channel) : ℕ :=
  p * s.permits + ((s.written ++ s.lost).map r).sum + (f s.reader + (s.tasks.map g).sum)

/-- How the weights before and after a move are related, from where the move is made. -/
structure Balance (R : ℕ → ℕ → Prop) (p : ℕ) (r : ResponseEnvelope → ℕ) (f : Reader → ℕ)
    (g : Task → ℕ) : Prop where
  add : ∀ a b c, R a b → R (a + c) (b + c)
  token : ∀ task : Task, g { task with cancelled := true } = g task
  write : ∀ response last next, next = .reading ∨ next = .stopped →
    R (f (.writing response last)) (r response + f next)
  cancel : ∀ request id payload,
    R (f (.cancelling request id)) (f (.writing (.success request payload) false))
  acquire : ∀ request, R (p + f (.acquiring request)) (f (.registering request))
  spawn : ∀ request, R (f (.registering request)) (f .reading + g { request := request })
  refuse : ∀ request code message retryable,
    R (f (.registering request)) (f (.refusing (.failure request code message retryable)))
  refused : ∀ response next, next = .reading ∨ next = .stopped →
    R (f (.refusing response)) (p + r response + f next)
  settle : ∀ (task : Task) (response : ResponseEnvelope) (next : Stage), task.stage = .running →
    response.key = task.request.key → next = .deregistering response ∨ next = .responding response →
      R (g task) (g { task with stage := next })
  deregister : ∀ (task : Task) (response : ResponseEnvelope), task.stage = .deregistering response →
    R (g task) (g { task with stage := .responding response })
  respond : ∀ (task : Task) (response : ResponseEnvelope), task.stage = .responding response →
    R (g task) (p + r response + g { task with stage := .finished })

theorem sum_record (r : ResponseEnvelope → ℕ) (s : Channel) (response : ResponseEnvelope) (sent : Bool) :
    (((s.record response sent).written ++ (s.record response sent).lost).map r).sum =
      ((s.written ++ s.lost).map r).sum + r response := by
  cases sent <;> simp [Channel.record] <;> omega

theorem exists_setStage (s : Channel) (n : ℕ) (task : Task) (response : ResponseEnvelope) :
    ∃ stage, (stage = .deregistering response ∨ stage = .responding response) ∧
      s.settle n task response = s.setStage n stage := by
  unfold Channel.settle
  split
  · exact ⟨_, .inl rfl, rfl⟩
  · exact ⟨_, .inr rfl, rfl⟩

/-- The move takes something from the input. -/
def Move.isInput : Move → Bool
  | .read _ | .eof => true
  | _ => false

/-- **Weights along a move** that takes nothing from the input. -/
theorem Balance.weigh {R : ℕ → ℕ → Prop} {p : ℕ} {r : ResponseEnvelope → ℕ} {f : Reader → ℕ}
    {g : Task → ℕ} (hb : Balance R p r f g) (h : Moves s move s') (hmove : move.isInput = false) :
    R (s.weight p r f g) (s'.weight p r f g) := by
  set answers := ((s.written ++ s.lost).map r).sum with hanswers
  set tasks := (s.tasks.map g).sum with htasks
  have hweight : s.weight p r f g = p * s.permits + answers + (f s.reader + tasks) := rfl
  -- only what the move touches weighs differently
  have key : ∀ (rest : ℕ) {before after : ℕ}, R before after → s.weight p r f g = before + rest →
      ∀ permits answers reader tasks, s'.permits = permits → ((s'.written ++ s'.lost).map r).sum = answers →
        s'.reader = reader → (s'.tasks.map g).sum = tasks →
          p * permits + answers + (f reader + tasks) = after + rest →
            R (s.weight p r f g) (s'.weight p r f g) := by
    rintro rest before after hlocal hbefore _ _ _ _ rfl rfl rfl rfl hafter
    rw [hbefore, show s'.weight p r f g = after + rest from hafter]
    exact hb.add _ _ _ hlocal
  cases h with
  | read request hreader => simp [Move.isInput] at hmove
  | eof hreader => simp [Move.isInput] at hmove
  | @write response last sent hreader =>
    have hnext : (if sent && !last then Reader.reading else .stopped) = .reading ∨
        (if sent && !last then Reader.reading else .stopped) = .stopped := by split <;> simp
    rw [hreader] at hweight
    exact key (p * s.permits + answers + tasks) (hb.write response last _ hnext) (by omega)
      s.permits (answers + r response) (if sent && !last then .reading else .stopped) tasks rfl
      (sum_record r s response sent) rfl rfl (by omega)
  | @cancel request id hreader =>
    rw [hreader] at hweight
    unfold Channel.cancel at key ⊢
    split
    · rename_i n hlookup
      rw [hlookup] at key
      have hsum : ((s.cancelToken n).tasks.map g).sum = tasks := Slots.sum_map_modify_of hb.token
      exact key (p * s.permits + answers + tasks) (hb.cancel request id (.obj [("cancelled", .bool true)]))
        (by omega) s.permits answers (.writing (.success request (.obj [("cancelled", .bool true)])) false) tasks
        rfl rfl rfl hsum (by omega)
    · rename_i hlookup
      rw [hlookup] at key
      exact key (p * s.permits + answers + tasks) (hb.cancel request id (.obj [("cancelled", .bool false)]))
        (by omega) s.permits answers (.writing (.success request (.obj [("cancelled", .bool false)])) false) tasks
        rfl rfl rfl rfl (by omega)
  | @acquire request hreader hpermits =>
    obtain ⟨k, hk⟩ : ∃ k, s.permits = k + 1 := ⟨s.permits - 1, by omega⟩
    rw [hreader, hk, Nat.mul_add_one] at hweight
    exact key (p * k + answers + tasks) (hb.acquire request) (by omega)
      k answers (.registering request) tasks (by rw [hk]; rfl) rfl rfl rfl (by omega)
  | @register request hreader =>
    have hspawn : ((s.spawn request).tasks.map g).sum = tasks + g { request := request } := by
      simp [Channel.spawn, htasks]
    rw [hreader] at hweight
    unfold Channel.register at key ⊢
    split
    · rename_i hid
      rw [hid] at key
      exact key (p * s.permits + answers + tasks) (hb.spawn request) (by omega)
        s.permits answers .reading _ rfl rfl rfl hspawn (by omega)
    · rename_i id hid
      rw [hid] at key
      dsimp only at key
      split
      · rename_i hlookup
        rw [if_pos hlookup] at key
        exact key (p * s.permits + answers + tasks) (hb.refuse request
            "duplicate_cancellation_id" "cancellation_id is already active" false) (by omega)
          s.permits answers (.refusing (.failure request "duplicate_cancellation_id"
            "cancellation_id is already active" false)) tasks rfl rfl rfl rfl (by omega)
      · rename_i hlookup
        rw [if_neg hlookup] at key
        exact key (p * s.permits + answers + tasks) (hb.spawn request) (by omega)
          s.permits answers .reading _ rfl rfl rfl hspawn (by omega)
  | @refuse response sent hreader =>
    have hnext : (if sent then Reader.reading else .stopped) = .reading ∨
        (if sent then Reader.reading else .stopped) = .stopped := by split <;> simp
    rw [hreader] at hweight
    exact key (p * s.permits + answers + tasks) (hb.refused response _ hnext) (by omega)
      (s.permits + 1) (answers + r response) (if sent then .reading else .stopped) tasks rfl
      (sum_record r s response sent) rfl rfl
      (by rw [Nat.mul_add_one]; omega)
  | @settle n task response m htask hstage hkey =>
    obtain ⟨next, hnext, heq⟩ := exists_setStage s n task response
    obtain ⟨others, hbefore, hafter⟩ :=
      Slots.sum_map_modify (fun task : Task => { task with stage := next }) g htask
    rw [heq] at key ⊢
    exact key (p * s.permits + answers + f s.reader + others)
      (hb.settle task response next hstage hkey hnext) (by omega)
      s.permits answers s.reader _ rfl rfl rfl hafter (by omega)
  | @deregister n task response id htask hstage hid hlock =>
    obtain ⟨others, hbefore, hafter⟩ :=
      Slots.sum_map_modify (fun task : Task => { task with stage := .responding response }) g htask
    exact key (p * s.permits + answers + f s.reader + others)
      (hb.deregister task response hstage) (by omega)
      s.permits answers s.reader _ rfl rfl rfl hafter (by omega)
  | @respond n task response sent htask hstage =>
    obtain ⟨others, hbefore, hafter⟩ :=
      Slots.sum_map_modify (fun task : Task => { task with stage := .finished }) g htask
    exact key (p * s.permits + answers + f s.reader + others)
      (hb.respond task response hstage) (by omega)
      (s.permits + 1) (answers + r response) s.reader _ rfl (sum_record r s response sent) rfl hafter
      (by rw [Nat.mul_add_one]; omega)

/-! ## Permits, answers and work -/

def Reader.permits : Reader → ℕ
  | .registering _ | .refusing _ => 1
  | _ => 0

def Task.permits (task : Task) : ℕ :=
  match task.stage with
  | .finished => 0
  | _ => 1

/-- The permits, with those that the loop and the tasks hold. -/
def Channel.allPermits (s : Channel) : ℕ := s.weight 1 (fun _ => 0) Reader.permits Task.permits

def Reader.owed : Reader → List (String × String)
  | .reading | .stopped => []
  | .writing response _ | .refusing response => [response.key]
  | .cancelling request _ | .acquiring request | .registering request => [request.key]

def Task.owed (task : Task) : List (String × String) :=
  match task.stage with
  | .running => [task.request.key]
  | .deregistering response | .responding response => [response.key]
  | .finished => []

/-- The requests that are still owed a response. -/
def Channel.owed (s : Channel) : List (String × String) := s.reader.owed ++ s.tasks.flatMap Task.owed

/-- The requests that were answered, or whose response could not be written. -/
def Channel.answers (s : Channel) : List (String × String) :=
  (s.written ++ s.lost).map ResponseEnvelope.key

/-- How many moves the loop still makes before it reads again, with those of a task it spawns. -/
def Reader.work : Reader → ℕ
  | .reading | .stopped => 0
  | .writing _ _ | .refusing _ => 1
  | .cancelling _ _ => 2
  | .registering _ => 4
  | .acquiring _ => 5

def Task.work (task : Task) : ℕ :=
  match task.stage with
  | .running => 3
  | .deregistering _ => 2
  | .responding _ => 1
  | .finished => 0

def Channel.work (s : Channel) : ℕ := s.weight 0 (fun _ => 0) Reader.work Task.work

theorem balance_permits : Balance (· = ·) 1 (fun _ => 0) Reader.permits Task.permits where
  add a b c h := by rw [h]
  token _ := rfl
  write _ _ _ h := by rcases h with rfl | rfl <;> rfl
  cancel _ _ _ := rfl
  acquire _ := rfl
  spawn _ := rfl
  refuse _ _ _ _ := rfl
  refused _ _ h := by rcases h with rfl | rfl <;> rfl
  settle _ _ _ hstage _ h := by rcases h with rfl | rfl <;> simp [Task.permits, hstage]
  deregister _ _ hstage := by simp [Task.permits, hstage]
  respond _ _ hstage := by simp [Task.permits, hstage]

theorem balance_owed (key : String × String) : Balance (· = ·) 0 (fun response => [response.key].count key)
    (fun reader => reader.owed.count key) fun task => task.owed.count key where
  add a b c h := by rw [h]
  token _ := rfl
  write _ _ _ h := by rcases h with rfl | rfl <;> rfl
  cancel _ _ _ := rfl
  acquire _ := Nat.zero_add _
  spawn _ := (Nat.zero_add _).symm
  refuse _ _ _ _ := rfl
  refused _ _ h := by rcases h with rfl | rfl <;> simp [Reader.owed]
  settle _ _ _ hstage hkey h := by rcases h with rfl | rfl <;> simp [Task.owed, hstage, hkey]
  deregister _ _ hstage := by simp [Task.owed, hstage]
  respond _ _ hstage := by simp [Task.owed, hstage]

theorem balance_work : Balance (fun before after => after + 1 ≤ before) 0 (fun _ => 0) Reader.work
    Task.work where
  add a b c h := by omega
  token _ := rfl
  write _ _ _ h := by rcases h with rfl | rfl <;> simp [Reader.work]
  cancel _ _ _ := le_refl 2
  acquire _ := le_refl 5
  spawn _ := le_refl 4
  refuse _ _ _ _ := by simp [Reader.work]
  refused _ _ h := by rcases h with rfl | rfl <;> simp [Reader.work]
  settle _ _ _ hstage _ h := by rcases h with rfl | rfl <;> simp [Task.work, hstage]
  deregister _ _ hstage := by simp [Task.work, hstage]
  respond _ _ hstage := by simp [Task.work, hstage]

theorem allPermits_eq (s : Channel) :
    s.allPermits = s.permits + (s.reader.permits + (s.tasks.map Task.permits).sum) := by
  simp [Channel.allPermits, Channel.weight]

theorem received_moves (h : Moves s move s') (hmove : move.isInput = false) :
    s'.received = s.received := by
  cases h with
  | read request hreader => simp [Move.isInput] at hmove
  | eof hreader => simp [Move.isInput] at hmove
  | cancel hreader =>
    unfold Channel.cancel
    split <;> rfl
  | register hreader =>
    unfold Channel.register
    split
    · rfl
    · split <;> rfl
  | write | acquire | refuse | settle | deregister | respond => rfl

theorem permits_moves (h : Moves s move s') : s'.allPermits = s.allPermits := by
  cases hmove : move.isInput with
  | false => exact (balance_permits.weigh h hmove).symm
  | true =>
    rw [allPermits_eq, allPermits_eq]
    cases h with
    | read request hreader =>
      have hdone := received_receive s request
      have hfree : (s.receive request).reader.permits = 0 := by
        rcases hdone.reader with ⟨response, last, h, -⟩ | ⟨id, h, -⟩ | ⟨h, -⟩ <;> rw [h] <;> rfl
      rw [hdone.permits, hdone.tasks, hfree, hreader]
      rfl
    | eof hreader =>
      rw [hreader]
      rfl
    | _ => cases hmove

theorem count_answered (s : Channel) (key : String × String) : s.answers.count key + s.owed.count key =
    s.weight 0 (fun response => [response.key].count key) (fun reader => reader.owed.count key)
      fun task => task.owed.count key := by
  have hcount : ∀ responses : List ResponseEnvelope, (responses.map ResponseEnvelope.key).count key =
      (responses.map fun response => [response.key].count key).sum := by
    intro responses
    induction responses with
    | nil => rfl
    | cons response responses ih =>
      rw [List.map_cons, List.map_cons, List.sum_cons, ← ih, List.count_cons, List.count_singleton]
      omega
  unfold Channel.answers Channel.owed Channel.weight
  rw [hcount, List.count_append, List.count_flatMap, Nat.zero_mul, Nat.zero_add]
  rfl

/-- A move answers what it takes off, and takes on what it reads. -/
theorem answers_moves (h : Moves s move s') (key : String × String) :
    s'.answers.count key + s'.owed.count key + (s.received.map RequestEnvelope.key).count key =
      s.answers.count key + s.owed.count key + (s'.received.map RequestEnvelope.key).count key := by
  cases hmove : move.isInput with
  | false => rw [count_answered, count_answered, (balance_owed key).weigh h hmove, received_moves h hmove]
  | true =>
    cases h with
    | read request hreader =>
      have hdone := received_receive s request
      have howed : (s.receive request).reader.owed = [request.key] := by
        rcases hdone.reader with ⟨response, last, h, hkey, -⟩ | ⟨id, h, -⟩ | ⟨h, -⟩
        · rw [h, ← hkey]
          rfl
        · rw [h]
          rfl
        · rw [h]
          rfl
      have hnone : s.reader.owed = [] := by rw [hreader]; rfl
      have hreceived : (s.received ++ [request]).map RequestEnvelope.key =
          s.received.map RequestEnvelope.key ++ [request.key] := List.map_append
      unfold Channel.answers Channel.owed
      rw [hdone.written, hdone.lost, hdone.tasks, hdone.received, howed, hnone, hreceived]
      simp only [List.count_append, List.nil_append]
      omega
    | eof hreader =>
      unfold Channel.owed
      rw [hreader]
      rfl
    | _ => cases hmove

theorem work_moves (h : Moves s move s') (hmove : move.isInput = false) : s'.work + 1 ≤ s.work :=
  balance_work.weigh h hmove

/-! ## Registered tokens -/

/-- The task still has its cancellation id to take out. -/
def Task.listed (task : Task) : Bool :=
  match task.stage with
  | .running | .deregistering _ => true
  | _ => false

/-- No task is spawned for a `system.cancel`, and only a task with a cancellation id takes one out. -/
structure Task.Sound (task : Task) : Prop where
  request : task.request.kind ≠ "system.cancel"
  deregistering : ∀ response, task.stage = .deregistering response →
    response.kind ≠ "system.cancel" ∧ task.request.cancellationId.isSome = true
  responding : ∀ response, task.stage = .responding response → response.kind ≠ "system.cancel"

def Reader.Sound : Reader → Prop
  | .cancelling request _ => request.kind = "system.cancel"
  | .acquiring request | .registering request => request.kind ≠ "system.cancel"
  | .refusing response => response.kind ≠ "system.cancel"
  | _ => True

/-- A registered token is that of a task that waits for it: not cancelled, and not done. -/
structure Registered (s : Channel) : Prop where
  entries : ∀ id n, (id, n) ∈ s.cancellations → ∃ task, s.tasks[n]? = some task ∧
    task.request.cancellationId = some id ∧ task.cancelled = false ∧ task.listed = true
  tasks : ∀ task ∈ s.tasks, task.Sound
  reader : s.reader.Sound

theorem Task.sound_start {request : RequestEnvelope} (h : request.kind ≠ "system.cancel") :
    Task.Sound { request := request } where
  request := h
  deregistering _ h := nomatch h
  responding _ h := nomatch h

theorem mem_of_lookup {id : String} {n : ℕ} {entries : List (String × ℕ)}
    (h : entries.lookup id = some n) : (id, n) ∈ entries := by
  obtain ⟨front, rest, rfl, -⟩ := List.lookup_eq_some_iff.1 h
  exact List.mem_append_right _ List.mem_cons_self

theorem mem_unregister {id id' : String} {n : ℕ} (h : (id', n) ∈ (s.unregister id).cancellations) :
    (id', n) ∈ s.cancellations ∧ id' ≠ id := by
  simpa [Channel.unregister] using h

theorem getElem?_setStage {n m : ℕ} (stage : Stage) (h : n ≠ m) :
    (s.setStage n stage).tasks[m]? = s.tasks[m]? :=
  List.getElem?_modify_ne _ _ h

theorem sound_setStage {n : ℕ} {stage : Stage} (hs : ∀ task ∈ s.tasks, task.Sound)
    (h : ∀ task, s.tasks[n]? = some task → Task.Sound { task with stage := stage }) :
    ∀ task ∈ (s.setStage n stage).tasks, task.Sound := by
  intro task htask
  obtain ⟨old, hold, rfl | ⟨hn, rfl⟩⟩ := Slots.exists_of_mem_modify htask
  · exact hs _ hold
  · exact h old hn

theorem registered_moves (h : Moves s move s') (hs : Registered s) : Registered s' := by
  cases h with
  | read request hreader =>
    have hdone := received_receive s request
    refine ⟨?_, ?_, ?_⟩
    · rw [hdone.cancellations, hdone.tasks]
      exact hs.entries
    · rw [hdone.tasks]
      exact hs.tasks
    · rcases hdone.reader with ⟨response, last, h, -⟩ | ⟨id, h, hkind⟩ | ⟨h, hkind⟩ <;> rw [h]
      · trivial
      · exact hkind
      · exact hkind
  | eof hreader => exact ⟨hs.entries, hs.tasks, trivial⟩
  | write sent hreader =>
    refine ⟨hs.entries, hs.tasks, ?_⟩
    dsimp only
    split <;> trivial
  | @cancel request id hreader =>
    unfold Channel.cancel
    split
    · rename_i n hlookup
      refine ⟨fun id' n' h => ?_, fun task htask => ?_, trivial⟩
      · -- the token of another id is that of another task
        obtain ⟨hmem, hne⟩ := mem_unregister h
        obtain ⟨task, htask, hid, hcancelled, hlisted⟩ := hs.entries id' n' hmem
        obtain ⟨task', htask', hid', -⟩ :=
          hs.entries id n (mem_of_lookup hlookup)
        have hn : n ≠ n' := by
          rintro rfl
          rw [htask] at htask'
          obtain rfl := Option.some.inj htask'
          rw [hid] at hid'
          exact hne (Option.some.inj hid')
        exact ⟨task, (List.getElem?_modify_ne _ _ hn).trans htask, hid, hcancelled, hlisted⟩
      · obtain ⟨old, hold, rfl | ⟨-, rfl⟩⟩ := Slots.exists_of_mem_modify htask
        · exact hs.tasks _ hold
        · have hsound := hs.tasks _ hold
          exact ⟨hsound.request, hsound.deregistering, hsound.responding⟩
    · exact ⟨hs.entries, hs.tasks, trivial⟩
  | @acquire request hreader hpermits =>
    have hkind := hs.reader
    rw [hreader] at hkind
    exact ⟨hs.entries, hs.tasks, hkind⟩
  | @register request hreader =>
    have hkind := hs.reader
    rw [hreader] at hkind
    have hold : ∀ {n : ℕ} {task : Task}, s.tasks[n]? = some task →
        (s.tasks ++ [{ request := request }])[n]? = some task := by
      intro n task htask
      rw [List.getElem?_append_left (List.getElem?_eq_some_iff.1 htask).1, htask]
    have htasks : ∀ task ∈ (s.spawn request).tasks, task.Sound := by
      intro task htask
      rcases List.mem_append.1 htask with htask | htask
      · exact hs.tasks _ htask
      · rw [List.mem_singleton.1 htask]
        exact Task.sound_start hkind
    have hentries : ∀ id n, (id, n) ∈ s.cancellations → ∃ task, (s.spawn request).tasks[n]? = some task ∧
        task.request.cancellationId = some id ∧ task.cancelled = false ∧ task.listed = true := by
      intro id n hmem
      obtain ⟨task, htask, hrest⟩ := hs.entries id n hmem
      exact ⟨task, hold htask, hrest⟩
    unfold Channel.register
    split
    · exact ⟨hentries, htasks, trivial⟩
    · rename_i id hid
      split
      · exact ⟨hs.entries, hs.tasks, hkind⟩
      · refine ⟨fun id' n' hmem => ?_, htasks, trivial⟩
        rcases List.mem_cons.1 hmem with hmem | hmem
        · obtain ⟨rfl, rfl⟩ := Prod.mk.inj hmem
          exact ⟨{ request := request }, by simp [Channel.spawn], hid, rfl, rfl⟩
        · exact hentries id' n' hmem
  | refuse sent hreader =>
    refine ⟨hs.entries, hs.tasks, ?_⟩
    dsimp only
    split <;> trivial
  | @settle n task response m htask hstage hkey =>
    have hsound := hs.tasks _ (List.mem_of_getElem? htask)
    have hkind : response.kind ≠ "system.cancel" := by
      rw [show response.kind = task.request.kind from congrArg Prod.snd hkey]
      exact hsound.request
    refine ⟨fun id n' hmem => ?_, ?_, hs.reader⟩
    · obtain ⟨task', htask', hid, hcancelled, hlisted⟩ := hs.entries id n' hmem
      by_cases hn : n = n'
      · subst hn
        rw [htask] at htask'
        obtain rfl := Option.some.inj htask'
        refine ⟨_, Slots.getElem?_modify_of _ n htask, ?_⟩
        rw [if_pos rfl]
        refine ⟨hid, hcancelled, ?_⟩
        simp [Task.listed, hid]
      · exact ⟨task', (getElem?_setStage _ hn).trans htask', hid, hcancelled, hlisted⟩
    · refine sound_setStage hs.tasks fun old hold => ?_
      rw [htask] at hold
      obtain rfl := Option.some.inj hold
      refine ⟨hsound.request, fun r hr => ?_, fun r hr => ?_⟩
      · dsimp only at hr
        split at hr
        · rename_i hsome
          obtain rfl := Stage.deregistering.inj hr
          exact ⟨hkind, hsome⟩
        · exact nomatch hr
      · dsimp only at hr
        split at hr
        · exact nomatch hr
        · obtain rfl := Stage.responding.inj hr
          exact hkind
  | @deregister n task response id htask hstage hid hlock =>
    have hsound := hs.tasks _ (List.mem_of_getElem? htask)
    refine ⟨fun id' n' hmem => ?_, ?_, hs.reader⟩
    · obtain ⟨hmem, hne⟩ := mem_unregister hmem
      obtain ⟨task', htask', hid', hcancelled, hlisted⟩ := hs.entries id' n' hmem
      have hn : n ≠ n' := by
        rintro rfl
        rw [htask] at htask'
        obtain rfl := Option.some.inj htask'
        rw [hid] at hid'
        exact hne (Option.some.inj hid').symm
      exact ⟨task', (getElem?_setStage _ hn).trans htask', hid', hcancelled, hlisted⟩
    · refine sound_setStage hs.tasks fun old hold => ?_
      have hold : s.tasks[n]? = some old := hold
      rw [htask] at hold
      obtain rfl := Option.some.inj hold
      refine ⟨hsound.request, nofun, fun r hr => ?_⟩
      obtain rfl := Stage.responding.inj hr
      exact (hsound.deregistering _ hstage).1
  | @respond n task response sent htask hstage =>
    refine ⟨fun id n' hmem => ?_, ?_, ?_⟩
    · obtain ⟨task', htask', hid, hcancelled, hlisted⟩ := hs.entries id n' hmem
      have hn : n ≠ n' := by
        rintro rfl
        rw [htask] at htask'
        obtain rfl := Option.some.inj htask'
        simp [Task.listed, hstage] at hlisted
      exact ⟨task', (getElem?_setStage (s := s.record response sent) _ hn).trans htask', hid, hcancelled,
        hlisted⟩
    · refine sound_setStage (s := s.record response sent) hs.tasks fun old hold => ?_
      obtain rfl := Option.some.inj (htask.symm.trans hold)
      exact ⟨(hs.tasks _ (List.mem_of_getElem? htask)).request, nofun, nofun⟩
    · exact hs.reader

/-- The response says that a request was cancelled. -/
def ResponseEnvelope.confirms (response : ResponseEnvelope) : Bool :=
  response.kind = "system.cancel" && response.payload = .obj [("cancelled", .bool true)]

def Reader.confirms : Reader → ℕ
  | .writing response _ | .refusing response => if response.confirms then 1 else 0
  | _ => 0

/-- The cancellations that were confirmed, or are about to be. -/
def Channel.confirmed (s : Channel) : ℕ :=
  (s.written ++ s.lost).countP ResponseEnvelope.confirms + s.reader.confirms

def Task.cancels (task : Task) : ℕ := if task.cancelled then 1 else 0

theorem countP_record (s : Channel) (response : ResponseEnvelope) (sent : Bool) :
    ((s.record response sent).written ++ (s.record response sent).lost).countP ResponseEnvelope.confirms =
      (s.written ++ s.lost).countP ResponseEnvelope.confirms + if response.confirms then 1 else 0 := by
  cases sent <;> simp [Channel.record, List.countP_append, List.countP_cons] <;> omega

theorem cancels_setStage (s : Channel) (n : ℕ) (stage : Stage) :
    ((s.setStage n stage).tasks.map Task.cancels).sum = (s.tasks.map Task.cancels).sum :=
  Slots.sum_map_modify_of fun _ => rfl

theorem not_confirms {response : ResponseEnvelope} (h : response.kind ≠ "system.cancel") :
    response.confirms = false := by
  simp [ResponseEnvelope.confirms, h]

/-- A move confirms a cancellation exactly if it cancels a token. -/
theorem confirmed_moves (hs : Registered s) (h : Moves s move s') :
    s'.confirmed + (s.tasks.map Task.cancels).sum = s.confirmed + (s'.tasks.map Task.cancels).sum := by
  unfold Channel.confirmed
  cases h with
  | read request hreader =>
    have hdone := received_receive s request
    have hbefore : s.reader.confirms = 0 := by rw [hreader]; rfl
    have hafter : (s.receive request).reader.confirms = 0 := by
      rcases hdone.reader with ⟨response, last, h, -, hpayload⟩ | ⟨id, h, -⟩ | ⟨h, -⟩
      · rw [h]
        simp [Reader.confirms, ResponseEnvelope.confirms, hpayload]
      · rw [h]
        rfl
      · rw [h]
        rfl
    rw [hdone.written, hdone.lost, hdone.tasks, hbefore, hafter]
  | eof hreader =>
    have hbefore : s.reader.confirms = 0 := by rw [hreader]; rfl
    rw [hbefore]
    rfl
  | @write response last sent hreader =>
    have hbefore : s.reader.confirms = if response.confirms then 1 else 0 := by rw [hreader]; rfl
    have hafter : (if sent && !last then Reader.reading else .stopped).confirms = 0 := by split <;> rfl
    simp only [countP_record, hbefore, hafter]
    change _ + (s.tasks.map Task.cancels).sum = _ + (s.tasks.map Task.cancels).sum
    omega
  | @cancel request id hreader =>
    have hkind : request.kind = "system.cancel" := by
      have hsound := hs.reader
      rwa [hreader] at hsound
    have hbefore : s.reader.confirms = 0 := by rw [hreader]; rfl
    rw [hbefore]
    unfold Channel.cancel
    split
    · rename_i n hlookup
      obtain ⟨task, htask, -, hcancelled, -⟩ := hs.entries id n (mem_of_lookup hlookup)
      obtain ⟨rest, hrest, hmodified⟩ :=
        Slots.sum_map_modify (fun task : Task => { task with cancelled := true }) Task.cancels htask
      have hold : task.cancels = 0 := by simp [Task.cancels, hcancelled]
      have hnew : Task.cancels { task with cancelled := true } = 1 := rfl
      have hconfirms : (ResponseEnvelope.success request (.obj [("cancelled", .bool true)])).confirms := by
        simp [ResponseEnvelope.confirms, ResponseEnvelope.success, hkind]
      change _ + (if _ then 1 else 0) + _ = _ + ((s.tasks.modify n _).map Task.cancels).sum
      rw [if_pos hconfirms]
      change (s.written ++ s.lost).countP _ + 1 + _ = _
      omega
    · have hrefuses : (ResponseEnvelope.success request (.obj [("cancelled", .bool false)])).confirms =
          false := by
        simp [ResponseEnvelope.confirms, ResponseEnvelope.success]
      simp only [Reader.confirms, hrefuses]
      rfl
  | @acquire request hreader hpermits =>
    have hbefore : s.reader.confirms = 0 := by rw [hreader]; rfl
    rw [hbefore]
    rfl
  | @register request hreader =>
    have hkind := hs.reader
    rw [hreader] at hkind
    have hbefore : s.reader.confirms = 0 := by rw [hreader]; rfl
    have hspawn : ((s.spawn request).tasks.map Task.cancels).sum = (s.tasks.map Task.cancels).sum := by
      simp [Channel.spawn, Task.cancels]
    rw [hbefore]
    unfold Channel.register
    split
    · rw [hspawn]
      rfl
    · split
      · have hrefused : (ResponseEnvelope.failure request "duplicate_cancellation_id"
            "cancellation_id is already active" false).confirms = false := not_confirms hkind
        simp only [Reader.confirms, hrefused]
        rfl
      · simp only [hspawn]
        rfl
  | @refuse response sent hreader =>
    have hbefore : s.reader.confirms = if response.confirms then 1 else 0 := by rw [hreader]; rfl
    have hafter : (if sent then Reader.reading else .stopped).confirms = 0 := by split <;> rfl
    simp only [countP_record, hbefore, hafter]
    change _ + (s.tasks.map Task.cancels).sum = _ + (s.tasks.map Task.cancels).sum
    omega
  | @settle n task response m htask hstage hkey =>
    unfold Channel.settle
    rw [cancels_setStage]
    rfl
  | @deregister n task response id htask hstage hid hlock =>
    rw [cancels_setStage]
    rfl
  | @respond n task response sent htask hstage =>
    have hplain := not_confirms ((hs.tasks _ (List.mem_of_getElem? htask)).responding _ hstage)
    have hcount := countP_record s response sent
    have hsum := cancels_setStage (s.record response sent) n .finished
    simp only [hplain] at hcount
    change ((s.record response sent).written ++ (s.record response sent).lost).countP _ +
      (s.record response sent).reader.confirms + _ =
        _ + (((s.record response sent).setStage n .finished).tasks.map _).sum
    rw [hcount, hsum]
    rfl

/-! ## The tokens of running tasks -/

/-- No cancelled task still carries the cancellation id that is registered. -/
def Unshared (s : Channel) (move : Move) : Prop :=
  match s.reader, move with
  | .registering request, .register => ∀ task ∈ s.tasks, task.listed = true → task.cancelled = true →
      request.cancellationId.isSome = true → task.request.cancellationId ≠ request.cancellationId
  | _, _ => True

/-- Each task that can still be cancelled is registered, and no two that are not done share an id. -/
structure Covered (s : Channel) : Prop where
  registered : ∀ (n : ℕ) (task : Task) id, s.tasks[n]? = some task → task.listed = true →
    task.cancelled = false → task.request.cancellationId = some id → (id, n) ∈ s.cancellations
  alone : ∀ (n m : ℕ) (task task' : Task) id, s.tasks[n]? = some task → s.tasks[m]? = some task' →
    task.listed = true → task'.listed = true → task.request.cancellationId = some id →
    task'.request.cancellationId = some id → n = m

/-- Tasks that only move on, and take no id of another out, stay covered. -/
theorem Covered.of_tasks (hs : Covered s)
    (htasks : ∀ (n : ℕ) (task : Task), s'.tasks[n]? = some task → task.listed = true →
      ∃ old : Task, s.tasks[n]? = some old ∧ old.listed = true ∧ old.request = task.request ∧
        (task.cancelled = false → old.cancelled = false))
    (hcancellations : ∀ (n : ℕ) (task : Task) id, s'.tasks[n]? = some task → task.listed = true →
      task.cancelled = false → task.request.cancellationId = some id → (id, n) ∈ s.cancellations →
        (id, n) ∈ s'.cancellations) : Covered s' where
  registered n task id htask hlisted hcancelled hid := by
    obtain ⟨old, hold, holdListed, hrequest, hfresh⟩ := htasks n task htask hlisted
    refine hcancellations n task id htask hlisted hcancelled hid ?_
    exact hs.registered n old id hold holdListed (hfresh hcancelled) (by rw [hrequest, hid])
  alone n m task task' id htask htask' hlisted hlisted' hid hid' := by
    obtain ⟨old, hold, holdListed, hrequest, -⟩ := htasks n task htask hlisted
    obtain ⟨old', hold', holdListed', hrequest', -⟩ := htasks m task' htask' hlisted'
    exact hs.alone n m old old' id hold hold' holdListed holdListed' (by rw [hrequest, hid])
      (by rw [hrequest', hid'])

/-- A new task, whose id no other has that is not done. -/
theorem Covered.spawn (request : RequestEnvelope) (hs : Covered s)
    (htasks : s'.tasks = s.tasks ++ [{ request := request }])
    (hkept : ∀ entry ∈ s.cancellations, entry ∈ s'.cancellations)
    (hfresh : ∀ id, request.cancellationId = some id → ∀ (n : ℕ) (task : Task), s.tasks[n]? = some task →
      task.listed = true → task.request.cancellationId ≠ some id)
    (hnew : ∀ id, request.cancellationId = some id → (id, s.tasks.length) ∈ s'.cancellations) :
    Covered s' where
  registered n task id htask hlisted hcancelled hid := by
    rw [htasks] at htask
    rcases Slots.append_getElem? htask with htask | ⟨rfl, rfl⟩
    · exact hkept _ (hs.registered n task id htask hlisted hcancelled hid)
    · exact hnew id hid
  alone n m task task' id htask htask' hlisted hlisted' hid hid' := by
    rw [htasks] at htask htask'
    rcases Slots.append_getElem? htask with htask | ⟨rfl, rfl⟩
    · rcases Slots.append_getElem? htask' with htask' | ⟨rfl, rfl⟩
      · exact hs.alone n m task task' id htask htask' hlisted hlisted' hid hid'
      · exact absurd hid (hfresh id hid' n task htask hlisted)
    · rcases Slots.append_getElem? htask' with htask' | ⟨rfl, rfl⟩
      · exact absurd hid' (hfresh id hid m task' htask' hlisted')
      · rfl

/-- A task that moves on to a stage. -/
theorem exists_of_setStage {n m : ℕ} {stage : Stage} {task old : Task} (hold : s.tasks[n]? = some old)
    (hlive : old.listed = true) (htask : (s.setStage n stage).tasks[m]? = some task)
    (hlisted : task.listed = true) : ∃ old : Task, s.tasks[m]? = some old ∧ old.listed = true ∧
      old.request = task.request ∧ (task.cancelled = false → old.cancelled = false) := by
  obtain ⟨before, hbefore, ⟨rfl, rfl⟩ | ⟨-, rfl⟩⟩ := Slots.modify_getElem? htask
  · rw [hold] at hbefore
    obtain rfl := Option.some.inj hbefore
    exact ⟨old, hold, hlive, rfl, fun h => h⟩
  · exact ⟨task, hbefore, hlisted, rfl, fun h => h⟩

theorem covered_moves (hregistered : Registered s) (h : Moves s move s') (hmove : Unshared s move)
    (hs : Covered s) : Covered s' := by
  have hself : ∀ (n : ℕ) (task : Task), s.tasks[n]? = some task → task.listed = true →
      ∃ old : Task, s.tasks[n]? = some old ∧ old.listed = true ∧ old.request = task.request ∧
        (task.cancelled = false → old.cancelled = false) :=
    fun n task htask hlisted => ⟨task, htask, hlisted, rfl, fun h => h⟩
  cases h with
  | read request hreader =>
    have hdone := received_receive s request
    refine hs.of_tasks ?_ ?_
    · rw [hdone.tasks]
      exact hself
    · rw [hdone.cancellations]
      exact fun n task id _ _ _ _ h => h
  | eof hreader => exact ⟨hs.registered, hs.alone⟩
  | write sent hreader =>
    exact hs.of_tasks hself fun n task id _ _ _ _ h => h
  | @cancel request id hreader =>
    unfold Channel.cancel
    split
    · rename_i n hlookup
      have hentry := mem_of_lookup hlookup
      have hcancelled : ∀ (m : ℕ) (task : Task), ((s.unregister id).cancelToken n).tasks[m]? = some task →
          ∃ old : Task, s.tasks[m]? = some old ∧ old.listed = task.listed ∧ old.request = task.request ∧
            (task.cancelled = false → old.cancelled = false ∧ n ≠ m) := by
        intro m task htask
        obtain ⟨old, hold, ⟨-, rfl⟩ | ⟨hne, rfl⟩⟩ := Slots.modify_getElem? htask
        · exact ⟨old, hold, rfl, rfl, fun h => absurd h (by simp)⟩
        · exact ⟨_, hold, rfl, rfl, fun h => ⟨h, hne⟩⟩
      refine hs.of_tasks (fun m task htask hlisted => ?_) fun m task id' htask hlisted hfresh hid hmem => ?_
      · obtain ⟨old, hold, holdListed, hrequest, hfresh⟩ := hcancelled m task htask
        exact ⟨old, hold, holdListed.trans hlisted, hrequest, fun h => (hfresh h).1⟩
      · -- no other task that can be cancelled has the id of the token
        obtain ⟨old, hold, holdListed, hrequest, hfresh'⟩ := hcancelled m task htask
        obtain ⟨task', htask', hid', -, hlisted'⟩ := hregistered.entries id n hentry
        have hne : id' ≠ id := by
          rintro rfl
          exact (hfresh' hfresh).2 (hs.alone n m task' old id' htask' hold hlisted'
            (holdListed.trans hlisted) hid' (by rw [hrequest, hid]))
        change (id', m) ∈ s.cancellations.filter _
        simp [hmem, hne]
    · exact ⟨hs.registered, hs.alone⟩
  | @acquire request hreader hpermits => exact ⟨hs.registered, hs.alone⟩
  | @register request hreader =>
    unfold Unshared at hmove
    rw [hreader] at hmove
    unfold Channel.register
    split
    · rename_i hnone
      refine hs.spawn request rfl (fun _ h => h) ?_ ?_
      · exact fun id hid => absurd (hnone.symm.trans hid) (by simp)
      · exact fun id hid => absurd (hnone.symm.trans hid) (by simp)
    · rename_i id hid
      split
      · exact ⟨hs.registered, hs.alone⟩
      · rename_i hfree
        refine hs.spawn request rfl (fun _ h => List.mem_cons_of_mem _ h) ?_ ?_
        · intro id' hid' n task htask hlisted hsame
          obtain rfl := Option.some.inj (hid.symm.trans hid')
          -- a task that can be cancelled is registered, and a cancelled one has another id
          cases hcancelled : task.cancelled with
          | true =>
            exact hmove task (List.mem_of_getElem? htask) hlisted hcancelled (by simp [hid])
              (hsame.trans hid.symm)
          | false =>
            have hmem := hs.registered n task id htask hlisted hcancelled hsame
            exact hfree (List.lookup_isSome_iff.2 ⟨_, hmem, beq_self_eq_true id⟩)
        · intro id' hid'
          obtain rfl := Option.some.inj (hid.symm.trans hid')
          exact List.mem_cons_self
  | refuse sent hreader =>
    exact hs.of_tasks hself fun n task id _ _ _ _ h => h
  | @settle n task response m htask hstage hkey =>
    have hlive : task.listed = true := by simp [Task.listed, hstage]
    refine hs.of_tasks (fun m task' htask' hlisted => ?_) fun _ _ _ _ _ _ _ hmem => hmem
    exact exists_of_setStage htask hlive htask' hlisted
  | @deregister n task response id htask hstage hid hlock =>
    have hlive : task.listed = true := by simp [Task.listed, hstage]
    refine hs.of_tasks (fun m task' htask' hlisted => ?_) fun m task' id' htask' hlisted _ hid' hmem => ?_
    · exact exists_of_setStage (s := s.unregister id) htask hlive htask' hlisted
    · obtain ⟨old, hold, ⟨-, rfl⟩ | ⟨hne, rfl⟩⟩ := Slots.modify_getElem? htask'
      · simp [Task.listed] at hlisted
      · have hapart : id' ≠ id := by
          rintro rfl
          exact hne (hs.alone n m task _ id' htask hold hlive hlisted hid hid')
        change (id', m) ∈ s.cancellations.filter _
        simp [hmem, hapart]
  | @respond n task response sent htask hstage =>
    refine hs.of_tasks (fun m task' htask' hlisted => ?_) fun m task' id htask' hlisted _ hid hmem => ?_
    · obtain ⟨old, hold, ⟨-, rfl⟩ | ⟨-, rfl⟩⟩ := Slots.modify_getElem? htask'
      · simp [Task.listed] at hlisted
      · exact hself m _ hold hlisted
    · exact hmem

/-! ## The replay window -/

theorem rtake_pred {l : List String} {k : ℕ} :
    l.rtake k = if (l.rtake (k + 1)).length ≤ k then l.rtake (k + 1) else (l.rtake (k + 1)).tail := by
  unfold List.rtake
  rw [List.length_drop, List.tail_drop]
  split
  · have hshort : l.length ≤ k := by omega
    rw [show l.length - k = 0 by omega, show l.length - (k + 1) = 0 by omega]
  · congr 1
    omega

/-- The window holds the ids that were accepted last. -/
structure Recent (window : ReplayWindow) (accepted : List String) : Prop where
  capacity : 0 < window.capacity
  order : window.order = accepted.rtake window.capacity
  seen : window.seen = window.order.toFinset
  nodup : window.order.Nodup

theorem Recent.insert {window : ReplayWindow} {accepted : List String} (h : Recent window accepted)
    (id : String) :
    (window.insert id).1 = false ∧ id ∈ accepted.rtake window.capacity ∨
      (window.insert id).1 = true ∧ id ∉ accepted.rtake window.capacity ∧
        (window.insert id).2.capacity = window.capacity ∧
          Recent (window.insert id).2 (accepted ++ [id]) := by
  obtain ⟨k, hk⟩ : ∃ k, window.capacity = k + 1 := ⟨window.capacity - 1, by have := h.capacity; omega⟩
  have hmem : id ∈ window.seen ↔ id ∈ accepted.rtake window.capacity := by
    rw [h.seen, List.mem_toFinset, h.order]
  unfold ReplayWindow.insert
  split
  · rename_i hseen
    exact .inl ⟨rfl, hmem.1 hseen⟩
  · rename_i hseen
    have hnew : id ∉ window.order := by rwa [h.seen, List.mem_toFinset] at hseen
    have horder : accepted.rtake (k + 1) = window.order := by rw [h.order, hk]
    have hlast : (accepted ++ [id]).rtake window.capacity =
        (if window.order.length ≤ k then window.order else window.order.tail) ++ [id] := by
      rw [hk, List.rtake_concat_succ, rtake_pred, horder]
    right
    dsimp only
    split
    · rename_i hfull
      rw [List.length_append, List.length_singleton] at hfull
      rw [if_neg (by omega)] at hlast
      -- the oldest id goes, and it is no other's
      cases hw : window.order with
      | nil =>
        rw [hw, List.length_nil] at hfull
        omega
      | cons expired rest =>
        have hdistinct := h.nodup
        rw [hw, List.nodup_cons] at hdistinct
        rw [hw, List.mem_cons, not_or] at hnew
        rw [hw, List.tail_cons] at hlast
        refine ⟨rfl, fun hin => hseen (hmem.2 hin), rfl, h.capacity, hlast.symm, ?_, ?_⟩
        · change (Insert.insert id window.seen).erase expired = (rest ++ [id]).toFinset
          rw [h.seen, hw]
          ext x
          simp only [Finset.mem_erase, Finset.mem_insert, List.mem_toFinset, List.mem_cons,
            List.mem_append, List.not_mem_nil, or_false]
          constructor
          · rintro ⟨hne, rfl | rfl | hx⟩
            · exact .inr rfl
            · exact absurd rfl hne
            · exact .inl hx
          · rintro (hx | rfl)
            · exact ⟨fun heq => hdistinct.1 (heq ▸ hx), .inr (.inr hx)⟩
            · exact ⟨hnew.1, .inl rfl⟩
        · change (rest ++ [id]).Nodup
          rw [List.nodup_append]
          refine ⟨hdistinct.2, List.nodup_singleton _, fun a ha b hb => ?_⟩
          rw [List.mem_singleton.1 hb]
          rintro rfl
          exact hnew.2 ha
    · rename_i hroom
      rw [List.length_append, List.length_singleton] at hroom
      rw [if_pos (by omega)] at hlast
      refine ⟨rfl, fun hin => hseen (hmem.2 hin), rfl, h.capacity, hlast.symm, ?_, ?_⟩
      · rw [h.seen]
        ext x
        simp
      · change (window.order ++ [id]).Nodup
        rw [List.nodup_append]
        refine ⟨h.nodup, List.nodup_singleton _, fun a ha b hb => ?_⟩
        rw [List.mem_singleton.1 hb]
        rintro rfl
        exact hnew ha

/-- Equal ids were accepted far from each other. -/
def Spaced (capacity : ℕ) (accepted : List String) : Prop :=
  ∀ (i j : ℕ) (id : String), accepted[i]? = some id → accepted[j]? = some id → i < j → i + capacity < j

theorem Spaced.concat {capacity : ℕ} {accepted : List String} {id : String} (h : Spaced capacity accepted)
    (hnew : id ∉ accepted.rtake capacity) : Spaced capacity (accepted ++ [id]) := by
  intro i j id' hi hj hij
  rcases Slots.append_getElem? hj with hj' | ⟨rfl, rfl⟩
  · have hlt := (List.getElem?_eq_some_iff.1 hj').1
    rw [List.getElem?_append_left (by omega)] at hi
    exact h i j id' hi hj' hij
  · rw [List.getElem?_append_left hij] at hi
    by_contra hnear
    apply hnew
    refine List.mem_of_getElem? (i := i - (accepted.length - capacity)) ?_
    rw [List.rtake, List.getElem?_drop, show accepted.length - capacity +
      (i - (accepted.length - capacity)) = i by omega]
    exact hi

/-- The ids accepted: those of requests read, in order, and the last of them are in the window. -/
structure Windowed (s : Channel) : Prop where
  recent : Recent s.requestIds s.accepted
  capacity : s.requestIds.capacity = 4096
  spaced : Spaced 4096 s.accepted
  sublist : s.accepted.Sublist (s.received.map RequestEnvelope.requestId)

theorem window_receive (s : Channel) (request : RequestEnvelope) :
    (s.receive request).requestIds = (if Text.trim request.requestId = "" ∨
        (s.requestIds.insert request.requestId).1 = false then s.requestIds
      else (s.requestIds.insert request.requestId).2) ∧
    (s.receive request).accepted = (if Text.trim request.requestId = "" ∨
        (s.requestIds.insert request.requestId).1 = false then s.accepted
      else s.accepted ++ [request.requestId]) := by
  unfold Channel.receive
  dsimp only
  split
  · rename_i hblank
    rw [if_pos (.inl hblank), if_pos (.inl hblank)]
    exact ⟨rfl, rfl⟩
  rename_i hid
  split
  · rename_i hold
    have hold : (s.requestIds.insert request.requestId).1 = false := by simpa using hold
    rw [if_pos (.inr hold), if_pos (.inr hold)]
    exact ⟨rfl, rfl⟩
  · rename_i hnew
    have hnew : ¬ (Text.trim request.requestId = "" ∨
        (s.requestIds.insert request.requestId).1 = false) := by simpa [hid] using hnew
    rw [if_neg hnew, if_neg hnew]
    split
    · exact ⟨rfl, rfl⟩
    split
    · split <;> exact ⟨rfl, rfl⟩
    · exact ⟨rfl, rfl⟩

theorem windowed_moves (h : Moves s move s') (hs : Windowed s) : Windowed s' := by
  cases h with
  | read request hreader =>
    obtain ⟨hids, haccepted⟩ := window_receive s request
    have hreceived := (received_receive s request).received
    have hgrown : s.accepted.Sublist ((s.receive request).received.map RequestEnvelope.requestId) := by
      rw [hreceived, List.map_append]
      exact hs.sublist.trans (List.sublist_append_left _ _)
    by_cases hkept : Text.trim request.requestId = "" ∨
        (s.requestIds.insert request.requestId).1 = false
    · rw [if_pos hkept] at hids haccepted
      exact ⟨by rw [hids, haccepted]; exact hs.recent, by rw [hids]; exact hs.capacity,
        by rw [haccepted]; exact hs.spaced, by rw [haccepted]; exact hgrown⟩
    · rw [if_neg hkept] at hids haccepted
      rcases hs.recent.insert request.requestId with ⟨hold, -⟩ | ⟨-, hnew, hcapacity, hrecent⟩
      · exact absurd (.inr hold) hkept
      · rw [hs.capacity] at hnew hcapacity
        refine ⟨by rw [hids, haccepted]; exact hrecent, by rw [hids]; exact hcapacity,
          by rw [haccepted]; exact hs.spaced.concat hnew, ?_⟩
        rw [haccepted, hreceived, List.map_append]
        exact hs.sublist.append (List.Sublist.refl _)
  | eof hreader => exact ⟨hs.recent, hs.capacity, hs.spaced, hs.sublist⟩
  | cancel hreader =>
    unfold Channel.cancel
    split <;> exact ⟨hs.recent, hs.capacity, hs.spaced, hs.sublist⟩
  | register hreader =>
    unfold Channel.register
    split
    · exact ⟨hs.recent, hs.capacity, hs.spaced, hs.sublist⟩
    · split <;> exact ⟨hs.recent, hs.capacity, hs.spaced, hs.sublist⟩
  | write | acquire | refuse | settle | deregister | respond =>
    exact ⟨hs.recent, hs.capacity, hs.spaced, hs.sublist⟩

/-! ## Runs of the channel -/

/-- What holds of every state that the channel reaches. -/
structure Sound (s : Channel) : Prop where
  permits : s.allPermits = 256
  answers : ∀ key, s.answers.count key + s.owed.count key =
    (s.received.map RequestEnvelope.key).count key
  registered : Registered s
  confirmed : s.confirmed = (s.tasks.map Task.cancels).sum
  windowed : Windowed s

theorem sound_start : Sound {} where
  permits := rfl
  answers _ := rfl
  registered := ⟨nofun, nofun, trivial⟩
  confirmed := rfl
  windowed := ⟨⟨by decide, rfl, rfl, .nil⟩, rfl, nofun, .slnil⟩

theorem sound_step (hs : Sound s) (h : s.step move = some s') : Sound s' := by
  have hmoves := moves_step h
  have hconfirmed := confirmed_moves hs.registered hmoves
  have hbefore := hs.confirmed
  refine ⟨(permits_moves hmoves).trans hs.permits, fun key => ?_, registered_moves hmoves hs.registered,
    by omega, windowed_moves hmoves hs.windowed⟩
  have hanswers := answers_moves hmoves key
  have hkey := hs.answers key
  omega

theorem sound_run (h : moves.foldlM Channel.step {} = some s) : Sound s :=
  (Trace.invariant (I := Sound) h (fun _ _ _ hs hstep => sound_step hs hstep) sound_start).1

/-- **Each request that is read is answered once**, could not be, or is still owed its response. -/
theorem answered_once (h : moves.foldlM Channel.step {} = some s) :
    (s.received.map RequestEnvelope.key).Perm (s.answers ++ s.owed) := by
  rw [List.perm_iff_count]
  intro key
  rw [List.count_append]
  exact ((sound_run h).answers key).symm

/-- **An id is taken up again** exactly when it is not among the last 4096 that were. -/
theorem ids_spaced (h : moves.foldlM Channel.step {} = some s) :
    s.accepted.Sublist (s.received.map RequestEnvelope.requestId) ∧ Spaced 4096 s.accepted ∧
      ∀ request, (s.receive request).accepted = s.accepted ++ [request.requestId] ↔
        Text.trim request.requestId ≠ "" ∧ request.requestId ∉ s.accepted.rtake 4096 := by
  have hs := (sound_run h).windowed
  refine ⟨hs.sublist, hs.spaced, fun request => ?_⟩
  rw [(window_receive s request).2]
  have hinsert := hs.recent.insert request.requestId
  rw [hs.capacity] at hinsert
  split
  · rename_i hkept
    refine iff_of_false (fun h => by simpa using congrArg List.length h) ?_
    rintro ⟨hid, hnew⟩
    rcases hinsert with ⟨-, hold⟩ | ⟨hfresh, -⟩
    · exact hnew hold
    · rcases hkept with hkept | hkept
      · exact hid hkept
      · rw [hfresh] at hkept
        exact absurd hkept (by decide)
  · rename_i hfresh
    rw [not_or] at hfresh
    refine iff_of_true rfl ⟨hfresh.1, ?_⟩
    rcases hinsert with ⟨hold, -⟩ | ⟨-, hnew, -⟩
    · exact absurd hold hfresh.2
    · exact hnew

theorem step_task (s : Channel) (n : ℕ) (m : TaskMove) :
    s.step (.task n m) = s.tasks[n]?.bind fun task => s.taskStep n task m := by
  unfold Channel.step
  cases s.reader <;> rfl

/-- A task that is not done moves on, unless the loop holds the lock that it waits for. -/
theorem exists_task_step {n : ℕ} {task : Task} (htask : s.tasks[n]? = some task) (hsound : task.Sound)
    (hstage : task.stage ≠ .finished) (hlock : ∀ response, s.reader ≠ .refusing response) :
    ∃ m s', s.step (.task n m) = some s' := by
  cases h : task.stage with
  | running =>
    refine ⟨.dispatched (.ok .null), s.settle n task (dispatch task.request (.ok .null)), ?_⟩
    rw [step_task, htask, Option.bind_some]
    simp only [Channel.taskStep, h]
  | deregistering response =>
    obtain ⟨id, hid⟩ := Option.isSome_iff_exists.1 (hsound.deregistering response h).2
    refine ⟨.deregister, (s.unregister id).setStage n (.responding response), ?_⟩
    rw [step_task, htask, Option.bind_some]
    simp only [Channel.taskStep, h, hid]
  | responding response =>
    refine ⟨.respond true, { (s.record response true).setStage n .finished with permits := s.permits + 1 }, ?_⟩
    rw [step_task, htask, Option.bind_some]
    simp only [Channel.taskStep, h]
  | finished => exact absurd h hstage

/-- **No deadlock**: a channel that goes on only with new requests is done with all that it read. -/
theorem rested (hs : Sound s) (hstuck : ∀ move, move.isInput = false → s.step move = none)
    (hreader : s.reader ≠ .stopped) :
    s.reader = .reading ∧ ∀ task ∈ s.tasks, task.stage = .finished := by
  have htasks : (∀ response, s.reader ≠ .refusing response) →
      ∀ task ∈ s.tasks, task.stage = .finished := by
    intro hlock task hmem
    by_contra hstage
    obtain ⟨n, htask⟩ := List.mem_iff_getElem?.1 hmem
    obtain ⟨m, s', hstep⟩ := exists_task_step htask (hs.registered.tasks _ hmem) hstage hlock
    rw [hstuck _ rfl] at hstep
    cases hstep
  cases h : s.reader with
  | reading =>
    refine ⟨rfl, htasks fun response hrefusing => ?_⟩
    rw [h] at hrefusing
    cases hrefusing
  | writing response last =>
    have hstep := hstuck (.write true) rfl
    simp [Channel.step, h] at hstep
  | cancelling request id =>
    have hstep := hstuck .cancel rfl
    simp [Channel.step, h] at hstep
  | acquiring request =>
    -- a task holds each permit that the loop waits for
    have hstep := hstuck .acquire rfl
    have hnone : s.permits = 0 := by
      simpa [Channel.step, h] using hstep
    have hdone := htasks fun response hrefusing => by rw [h] at hrefusing; cases hrefusing
    have hpermits := hs.permits
    have hzero : (s.tasks.map Task.permits).sum = 0 := by
      refine List.sum_eq_zero_iff.2 fun permits hmem => ?_
      obtain ⟨task, htask, rfl⟩ := List.mem_map.1 hmem
      simp [Task.permits, hdone task htask]
    rw [allPermits_eq, h, hnone, hzero] at hpermits
    simp [Reader.permits] at hpermits
  | registering request =>
    have hstep := hstuck .register rfl
    simp [Channel.step, h] at hstep
  | refusing response =>
    have hstep := hstuck (.write true) rfl
    simp [Channel.step, h] at hstep
  | stopped => exact absurd h hreader

theorem work_run {rest : List Move} : ∀ {s : Channel}, rest.foldlM Channel.step s = some s' →
    (∀ move ∈ rest, move.isInput = false) → rest.length + s'.work ≤ s.work := by
  induction rest with
  | nil =>
    intro s h _
    obtain rfl : s = s' := Option.some.inj h
    simp
  | cons move rest ih =>
    intro s h hrest
    obtain ⟨s₁, hstep, hrun⟩ := Trace.foldlM_cons_eq_some.1 h
    have hfirst := work_moves (moves_step hstep) (hrest move List.mem_cons_self)
    have hothers := ih hrun fun m hm => hrest m (List.mem_cons_of_mem _ hm)
    rw [List.length_cons]
    omega

/-- **Without new requests the channel comes to rest**, and then everything is answered and given
back. -/
theorem drained {rest : List Move} (h : moves.foldlM Channel.step {} = some s)
    (hrun : rest.foldlM Channel.step s = some s') (hrest : ∀ move ∈ rest, move.isInput = false) :
    rest.length ≤ s.work ∧
      ((∀ move, move.isInput = false → s'.step move = none) → s'.reader ≠ .stopped →
        (s'.received.map RequestEnvelope.key).Perm s'.answers ∧ s'.permits = 256 ∧
          s'.cancellations = []) := by
  have hwork := work_run hrun hrest
  refine ⟨by omega, fun hstuck hreader => ?_⟩
  have hs := sound_run h
  have hs' : Sound s' :=
    (Trace.invariant (I := Sound) hrun (fun _ _ _ hs hstep => sound_step hs hstep) hs).1
  obtain ⟨hreading, hdone⟩ := rested hs' hstuck hreader
  have howed : s'.owed = [] := by
    unfold Channel.owed
    rw [hreading, List.append_eq_nil_iff]
    refine ⟨rfl, List.flatMap_eq_nil_iff.2 fun task htask => ?_⟩
    simp [Task.owed, hdone task htask]
  refine ⟨?_, ?_, ?_⟩
  · rw [List.perm_iff_count]
    intro key
    have hanswers := hs'.answers key
    rw [howed, List.count_nil] at hanswers
    omega
  · have hpermits := hs'.permits
    have hzero : (s'.tasks.map Task.permits).sum = 0 := by
      refine List.sum_eq_zero_iff.2 fun permits hmem => ?_
      obtain ⟨task, htask, rfl⟩ := List.mem_map.1 hmem
      simp [Task.permits, hdone task htask]
    rw [allPermits_eq, hreading, hzero] at hpermits
    exact hpermits
  · refine List.eq_nil_iff_forall_not_mem.2 fun entry hmem => ?_
    obtain ⟨task, htask, -, -, hlisted⟩ := hs'.registered.entries entry.1 entry.2 hmem
    rw [Task.listed, hdone task (List.mem_of_getElem? htask)] at hlisted
    cases hlisted

theorem sum_cancels (tasks : List Task) :
    (tasks.map Task.cancels).sum = tasks.countP fun task => task.cancelled := by
  induction tasks with
  | nil => rfl
  | cons task tasks ih =>
    rw [List.map_cons, List.sum_cons, ih, List.countP_cons, Task.cancels]
    omega

/-- **Each confirmed cancellation has cancelled a task of its own**, and every registered token is that
of a task that is not cancelled and not done. -/
theorem cancels_counted (h : moves.foldlM Channel.step {} = some s) :
    s.confirmed = s.tasks.countP (fun task => task.cancelled) ∧
      ∀ id n, (id, n) ∈ s.cancellations → ∃ task, s.tasks[n]? = some task ∧
        task.request.cancellationId = some id ∧ task.cancelled = false ∧ task.listed = true := by
  have hs := sound_run h
  exact ⟨hs.confirmed.trans (sum_cancels s.tasks), hs.registered.entries⟩

theorem covered_start : Covered {} where
  registered _ _ _ htask := by simp at htask
  alone _ _ _ _ _ htask := by simp at htask

theorem covered_run (h : moves.foldlM Channel.step {} = some s)
    (hunshared : ∀ v ∈ Trace.visits Channel.step moves {}, Unshared v.1 v.2) : Covered s := by
  refine (Trace.invariant (I := fun s => Sound s ∧ Covered s) h (fun v hv s' hs hstep => ?_)
    ⟨sound_start, covered_start⟩).1.2
  have hmoves := moves_step hstep
  exact ⟨sound_step hs.1 hstep, covered_moves hs.1.registered hmoves (hunshared v hv) hs.2⟩

/-- **A cancellation reaches its request**: as long as no id is registered again while a cancelled task
still carries it, `system.cancel` leaves no task with its id running, and it is confirmed exactly if
there was one. -/
theorem cancel_reaches {request : RequestEnvelope} {id : String}
    (h : moves.foldlM Channel.step {} = some s)
    (hunshared : ∀ v ∈ Trace.visits Channel.step moves {}, Unshared v.1 v.2)
    (hreader : s.reader = .cancelling request id) :
    s.step .cancel = some (s.cancel request id) ∧
      (∀ task ∈ (s.cancel request id).tasks, task.listed = true →
        task.request.cancellationId = some id → task.cancelled = true) ∧
      ((s.cancel request id).confirmed = s.confirmed + 1 ↔ ∃ task ∈ s.tasks,
        task.listed = true ∧ task.cancelled = false ∧ task.request.cancellationId = some id) := by
  have hs := sound_run h
  have hcovered := covered_run h hunshared
  have hstep : s.step .cancel = some (s.cancel request id) := by simp [Channel.step, hreader]
  have hsum := confirmed_moves hs.registered (moves_step hstep)
  refine ⟨hstep, ?_, ?_⟩
  · intro task hmem hlisted hid
    unfold Channel.cancel at hmem
    split at hmem
    · rename_i n hlookup
      obtain ⟨m, htask⟩ := List.mem_iff_getElem?.1 hmem
      obtain ⟨target, htarget, hid', -, hlisted'⟩ := hs.registered.entries id n (mem_of_lookup hlookup)
      obtain ⟨old, hold, ⟨-, rfl⟩ | ⟨hne, rfl⟩⟩ := Slots.modify_getElem? htask
      · rfl
      · exact absurd (hcovered.alone n m target _ id htarget hold hlisted' hlisted hid' hid) hne
    · rename_i hlookup
      by_contra hrunning
      obtain ⟨m, htask⟩ := List.mem_iff_getElem?.1 hmem
      have hentry := hcovered.registered m task id htask hlisted (by simpa using hrunning) hid
      have hsome := List.lookup_isSome_iff.2 ⟨_, hentry, beq_self_eq_true id⟩
      rw [hlookup] at hsome
      cases hsome
  · constructor
    · intro hone
      by_contra hnobody
      have hnone : s.cancellations.lookup id = none := by
        by_contra hsome
        obtain ⟨n, hlookup⟩ := Option.ne_none_iff_exists'.1 hsome
        obtain ⟨task, htask, hid, hfresh, hlisted⟩ := hs.registered.entries id n (mem_of_lookup hlookup)
        exact hnobody ⟨task, List.mem_of_getElem? htask, hlisted, hfresh, hid⟩
      have hsame : (s.cancel request id).tasks = s.tasks := by
        unfold Channel.cancel
        rw [hnone]
      rw [hsame] at hsum
      omega
    · rintro ⟨task, hmem, hlisted, hfresh, hid⟩
      obtain ⟨m, htask⟩ := List.mem_iff_getElem?.1 hmem
      have hentry := hcovered.registered m task id htask hlisted hfresh hid
      have hsome := List.lookup_isSome_iff.2 ⟨_, hentry, beq_self_eq_true id⟩
      obtain ⟨n, hlookup⟩ := Option.isSome_iff_exists.1 hsome
      obtain ⟨target, htarget, -, hfresh', -⟩ := hs.registered.entries id n (mem_of_lookup hlookup)
      obtain ⟨rest, hrest, hmodified⟩ :=
        Slots.sum_map_modify (fun task : Task => { task with cancelled := true }) Task.cancels htarget
      have hold : target.cancels = 0 := by simp [Task.cancels, hfresh']
      have hnew : Task.cancels { target with cancelled := true } = 1 := rfl
      have htasks : (s.cancel request id).tasks =
          s.tasks.modify n fun task => { task with cancelled := true } := by
        unfold Channel.cancel
        rw [hlookup]
        rfl
      rw [htasks] at hsum
      omega

/-! ## A request and its cancellation -/

def ping : RequestEnvelope where
  protocolVersion := 1
  requestId := "1"
  kind := "k"
  payload := .null
  cancellationId := some "c"

def cancelPing : RequestEnvelope where
  protocolVersion := 1
  requestId := "2"
  kind := "system.cancel"
  payload := .obj [("cancellation_id", .str "c")]

/-- The request was read and waits for the lock. -/
def asked : Channel := { ({} : Channel).receive ping with permits := 255, reader := .registering ping }

/-- The request runs, and its cancellation was read. -/
def pinged : Channel where
  requestIds := { capacity := 4096, order := ["1", "2"], seen := {"2", "1"} }
  permits := 255
  cancellations := [("c", 0)]
  tasks := [{ request := ping }]
  reader := .cancelling cancelPing "c"
  received := [ping, cancelPing]
  accepted := ["1", "2"]

def pingMoves : List Move := [.read ping, .acquire, .register, .read cancelPing]

theorem pinged_run : pingMoves.foldlM Channel.step {} = some pinged := by
  rfl

theorem ping_unshared : ∀ v ∈ Trace.visits Channel.step pingMoves {}, Unshared v.1 v.2 := by
  have hregister : Unshared asked .register := by
    have htasks : asked.tasks = [] := (received_receive {} ping).tasks
    unfold Unshared
    change ∀ task ∈ asked.tasks, _
    rw [htasks]
    nofun
  unfold pingMoves
  rw [Trace.visits_cons (show Channel.step {} (.read ping) = some (({} : Channel).receive ping) from rfl),
    Trace.visits_cons (show Channel.step _ .acquire = some asked from rfl),
    Trace.visits_cons (show Channel.step asked .register = some (asked.register ping) from rfl),
    Trace.visits_cons (show Channel.step _ (.read cancelPing) = some pinged from rfl)]
  intro v hv
  simp only [Trace.visits, List.mem_cons, List.not_mem_nil, or_false] at hv
  rcases hv with rfl | rfl | rfl | rfl
  · trivial
  · simp [Unshared]
  · exact hregister
  · simp [Unshared]

theorem ping_owed : (pinged.received.map RequestEnvelope.key).Perm (pinged.answers ++ pinged.owed) :=
  answered_once pinged_run

theorem ping_spaced : pinged.accepted.Sublist (pinged.received.map RequestEnvelope.requestId) ∧
    Spaced 4096 pinged.accepted ∧
      ∀ request, (pinged.receive request).accepted = pinged.accepted ++ [request.requestId] ↔
        Text.trim request.requestId ≠ "" ∧ request.requestId ∉ pinged.accepted.rtake 4096 :=
  ids_spaced pinged_run

theorem ping_counted : pinged.confirmed = pinged.tasks.countP (fun task => task.cancelled) ∧
    ∀ id n, (id, n) ∈ pinged.cancellations → ∃ task, pinged.tasks[n]? = some task ∧
      task.request.cancellationId = some id ∧ task.cancelled = false ∧ task.listed = true :=
  cancels_counted pinged_run

theorem ping_cancelled : pinged.step .cancel = some (pinged.cancel cancelPing "c") ∧
    (∀ task ∈ (pinged.cancel cancelPing "c").tasks, task.listed = true →
      task.request.cancellationId = some "c" → task.cancelled = true) ∧
    ((pinged.cancel cancelPing "c").confirmed = pinged.confirmed + 1 ↔ ∃ task ∈ pinged.tasks,
      task.listed = true ∧ task.cancelled = false ∧ task.request.cancellationId = some "c") :=
  cancel_reaches pinged_run ping_unshared rfl

/-- The cancelled request is answered. -/
def cancelledPing : Channel :=
  { pinged with
    permits := 256
    cancellations := []
    tasks := [{ request := ping, cancelled := true, stage := .finished }]
    reader := .reading
    written := [.success cancelPing (.obj [("cancelled", .bool true)]),
      .failure ping "cancelled" "Engine request was cancelled" true] }

def cancelMoves : List Move :=
  [.cancel, .write true, .task 0 .cancelled, .task 0 .deregister, .task 0 (.respond true)]

theorem ping_drained : cancelMoves.length ≤ pinged.work ∧
    ((∀ move, move.isInput = false → cancelledPing.step move = none) → cancelledPing.reader ≠ .stopped →
      (cancelledPing.received.map RequestEnvelope.key).Perm cancelledPing.answers ∧
        cancelledPing.permits = 256 ∧ cancelledPing.cancellations = []) :=
  drained pinged_run (show cancelMoves.foldlM Channel.step pinged = some cancelledPing from rfl) (by decide)

end Astock.Worker
