import Astock.Lib.Run

/-!
# Request coalescing

`single_flight` of `crates/market-data/src/hub.rs`: callers of one key await one shared execution of
`make`. A call is a future, so a caller can be dropped while it awaits; and callers run on several
threads, so between any two steps of one caller others can take theirs. Executions are numbered in
the order in which they start; the clock counts steps, and only dates them.
-/

namespace Astock

/-- An execution of `make`, with what it came to and when. -/
structure Execution (T : Type) where
  key : String
  startedAt : ℕ
  finished : Option (ℕ × T) := none
  deriving DecidableEq, Repr

/-- Where a caller is in `single_flight`. -/
inductive Phase (T : Type)
  /-- At `shared.await`. -/
  | waiting
  /-- Past it, with the outcome. -/
  | ready (out : T)
  | returned (time : ℕ) (out : T)
  | dropped
  deriving DecidableEq, Repr

structure Caller (T : Type) where
  key : String
  execution : ℕ
  leader : Bool
  startedAt : ℕ
  phase : Phase T := .waiting
  deriving DecidableEq, Repr

/-- The map of shared futures, all executions and all callers. -/
structure Flights (T : Type) where
  clock : ℕ := 0
  map : String → Option ℕ := fun _ => none
  executions : List (Execution T) := []
  callers : List (Caller T) := []

inductive FlightMove (T : Type)
  /-- A caller looks up its key, and runs `make` if nothing is there. -/
  | start (key : String)
  /-- A caller that waits is polled; where this drives the execution, `outcome` is what it comes
  to, or `none` while it is pending. -/
  | poll (caller : ℕ) (outcome : Option T)
  /-- A caller that is past the await returns; a leader removes the entry. -/
  | finish (caller : ℕ)
  | drop (caller : ℕ)
  deriving DecidableEq, Repr

namespace Flights

variable {T : Type}

def outcome (s : Flights T) (execution : ℕ) : Option (ℕ × T) :=
  (s.executions[execution]?).bind (·.finished)

def setPhase (s : Flights T) (i : ℕ) (phase : Phase T) : Flights T :=
  { s with callers := s.callers.modify i fun c => { c with phase := phase } }

def complete (s : Flights T) (execution : ℕ) (out : T) : Flights T :=
  { s with
    executions := s.executions.modify execution fun x => { x with finished := some (s.clock, out) } }

def start (s : Flights T) (key : String) : Flights T :=
  match s.map key with
  | some e =>
    { s with
      callers := s.callers ++
        [{ key := key, execution := e, leader := false, startedAt := s.clock }] }
  | none =>
    { s with
      map := Function.update s.map key (some s.executions.length)
      executions := s.executions ++ [{ key := key, startedAt := s.clock }]
      callers := s.callers ++
        [{ key := key, execution := s.executions.length, leader := true, startedAt := s.clock }] }

def poll (s : Flights T) (i : ℕ) (c : Caller T) (outcome : Option T) : Flights T :=
  match s.outcome c.execution, outcome with
  | some (_, out), _ => s.setPhase i (.ready out)
  | none, some out => (s.complete c.execution out).setPhase i (.ready out)
  | none, none => s

def finish (s : Flights T) (i : ℕ) (c : Caller T) (out : T) : Flights T :=
  let s' := s.setPhase i (.returned s.clock out)
  if c.leader then { s' with map := Function.update s'.map c.key none } else s'

def act (s : Flights T) : FlightMove T → Flights T
  | .start key => s.start key
  | .poll i outcome =>
    match s.callers[i]? with
    | some c => if c.phase matches .waiting then s.poll i c outcome else s
    | none => s
  | .finish i =>
    match s.callers[i]? with
    | some c =>
      match c.phase with
      | .ready out => s.finish i c out
      | _ => s
    | none => s
  | .drop i =>
    match s.callers[i]? with
    | some c => if c.phase matches .waiting then s.setPhase i .dropped else s
    | none => s

def step (s : Flights T) (move : FlightMove T) : Flights T :=
  { s.act move with clock := s.clock + 1 }

end Flights

end Astock
