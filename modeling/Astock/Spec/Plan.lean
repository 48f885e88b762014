import Mathlib.Tactic

/-!
# The research plan

`crates/agent-runtime/src/plan.rs`: a plan is a list of steps and the mutations that were applied to
it. `Plan::apply` edits the plan in place, so a mutation that is refused may have edited it already.
-/

namespace Astock

/-- Lifecycle of a single plan step. -/
inductive PlanStepStatus
  | pending
  | active
  | done
  | removed
  | blocked
  | degraded
  deriving DecidableEq, Repr

/-- A single visible unit of research work. -/
structure PlanStep where
  id : String
  title : String
  status : PlanStepStatus := .pending
  note : Option String := none
  attempts : UInt32 := 0
  deriving DecidableEq

/-- An explicit, explainable change to the plan. -/
inductive PlanMutation
  | add (step : PlanStep) (reason : Option String)
  | start (id : String)
  | complete (id : String)
  | degrade (id reason : String)
  | block (id reason : String)
  | remove (id reason : String)
  | retry (id reason : String)
  | split (id : String) (into : List PlanStep) (reason : String)
  | reorder (order : List String)
  deriving DecidableEq

structure Plan where
  steps : List PlanStep := []
  /-- Applied mutations, oldest first. -/
  history : List PlanMutation := []
  deriving DecidableEq

namespace Plan

def position (steps : List PlanStep) (id : String) : Option ℕ :=
  steps.findIdx? fun step => step.id = id

def duplicateStep (id : String) : String := "duplicate plan step id `" ++ id ++ "`"

def require (steps : List PlanStep) (id : String) : Except String ℕ :=
  match position steps id with
  | some index => .ok index
  | none => .error ("unknown plan step `" ++ id ++ "`")

/-- The mutations that edit one step in place. -/
def editStep (steps : List PlanStep) (id : String) (edit : PlanStep → PlanStep) :
    Except String Unit × List PlanStep :=
  match require steps id with
  | .error e => (.error e, steps)
  | .ok index => (.ok (), steps.modify index edit)

/-- The loop of a split: children are inserted behind `index` until one has an identifier that the
plan has already. -/
def insertChildren (index : ℕ) : List PlanStep → ℕ → List PlanStep →
    Except String Unit × List PlanStep
  | [], _, steps => (.ok (), steps)
  | child :: into, offset, steps =>
    if (position steps child.id).isSome then (.error (duplicateStep child.id), steps)
    else insertChildren index into (offset + 1) (steps.insertIdx (index + 1 + offset) child)

def splitStep (steps : List PlanStep) (id : String) (into : List PlanStep) (reason : String) :
    Except String Unit × List PlanStep :=
  if into = [] then (.error "a split must produce at least one step", steps)
  else
    match require steps id with
    | .error e => (.error e, steps)
    | .ok index =>
      insertChildren index into 0
        (steps.modify index fun step => { step with status := .removed, note := some reason })

/-- The first name that no step has. -/
def requireAll (steps : List PlanStep) : List String → Except String Unit
  | [] => .ok ()
  | id :: order =>
    match require steps id with
    | .error e => .error e
    | .ok _ => requireAll steps order

/-- The named steps in the order of their names, then the others. -/
def reordered (steps : List PlanStep) (order : List String) : List PlanStep :=
  (order.filterMap fun id => (position steps id).bind (steps[·]?)) ++
    steps.filter fun step => step.id ∉ order

/-- What a mutation does to the steps. -/
def edit (steps : List PlanStep) : PlanMutation → Except String Unit × List PlanStep
  | .add step _ =>
    if (position steps step.id).isSome then (.error (duplicateStep step.id), steps)
    else (.ok (), steps ++ [step])
  | .start id => editStep steps id fun step => { step with status := .active }
  | .complete id => editStep steps id fun step => { step with status := .done, note := none }
  | .degrade id reason =>
    editStep steps id fun step => { step with status := .degraded, note := some reason }
  | .block id reason =>
    editStep steps id fun step => { step with status := .blocked, note := some reason }
  | .remove id reason =>
    editStep steps id fun step => { step with status := .removed, note := some reason }
  | .retry id reason =>
    editStep steps id fun step =>
      { step with status := .active, attempts := step.attempts + 1, note := some reason }
  | .split id into reason => splitStep steps id into reason
  | .reorder order =>
    match requireAll steps order with
    | .error e => (.error e, steps)
    | .ok _ => (.ok (), reordered steps order)

/-- `Plan::apply`: the result, and the plan after the call. -/
def apply (plan : Plan) (mutation : PlanMutation) : Except String Unit × Plan :=
  match edit plan.steps mutation with
  | (.ok _, steps) => (.ok (), { steps, history := plan.history ++ [mutation] })
  | (.error e, steps) => (.error e, { plan with steps })

/-- The plan after a call. -/
def after (plan : Plan) (mutation : PlanMutation) : Plan := (plan.apply mutation).2

end Plan

end Astock
