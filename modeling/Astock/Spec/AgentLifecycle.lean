import Mathlib.Data.Finset.Basic
import Mathlib.Logic.Function.Basic

/-!
# The specified lifecycle of an agent task

`formal/AgentLifecycle.tla`, with its actions under their names, for any tools and any bounds. A
behaviour is an infinite sequence of states; a duplicate or stale frame leaves the state as it is.
-/

namespace Astock.AgentLifecycle

inductive Phase
  | idle | preparing | waitingForUser | reasoning | awaitingTools | reviewing | synthesizing | verifying
  | verificationFailed | suspended | completed | cancelled | hardFailed
  deriving DecidableEq, Repr

def Phase.terminal : Phase → Bool
  | .completed | .verificationFailed | .cancelled | .hardFailed => true
  | _ => false

structure Bounds where
  maxRetries : ℕ
  maxCrashes : ℕ
  maxSeq : ℕ

structure State (Tool : Type) where
  phase : Phase := .idle
  seq : ℕ := 0
  pending : Finset Tool := ∅
  completed : Finset Tool := ∅
  resultCount : Tool → ℕ := fun _ => 0
  retries : Tool → ℕ := fun _ => 0
  evidenceCount : ℕ := 0
  published : Bool := false
  checkpointed : Bool := true
  crashed : Bool := false
  crashCount : ℕ := 0

inductive Forward (Tool : Type)
  | start | prepared | needClarification | answerClarification
  | requestTool (t : Tool) | toolResult (t : Tool) | retryTool (t : Tool)
  | review | synthesize | verifyPass | verifyReject | suspend | resume | cancel | hardFail

inductive Action (Tool : Type)
  | forward (action : Forward Tool)
  | crash | restart | duplicateOrStaleFrame

variable {Tool : Type} [DecidableEq Tool] (c : Bounds)

/-- What every commit does besides its own changes. -/
def commit (next : Phase) (s : State Tool) : Option (State Tool) :=
  if s.seq < c.maxSeq then some { s with phase := next, seq := s.seq + 1, checkpointed := true } else none

def forward (s : State Tool) : Forward Tool → Option (State Tool)
  | .start => if s.phase = .idle then commit c .preparing s else none
  | .prepared => if s.phase = .preparing then commit c .reasoning s else none
  | .needClarification => if s.phase = .preparing then commit c .waitingForUser s else none
  | .answerClarification => if s.phase = .waitingForUser then commit c .preparing s else none
  | .requestTool t =>
    if s.phase = .reasoning ∧ t ∉ s.pending ∧ t ∉ s.completed then
      commit c .awaitingTools { s with pending := insert t s.pending }
    else none
  | .toolResult t =>
    if t ∈ s.pending then
      commit c (if s.pending = {t} then .reviewing else .awaitingTools)
        { s with
          pending := s.pending.erase t
          completed := insert t s.completed
          resultCount := Function.update s.resultCount t (s.resultCount t + 1)
          evidenceCount := s.evidenceCount + 1
          retries := Function.update s.retries t 0 }
    else none
  | .retryTool t =>
    if t ∈ s.pending ∧ s.retries t < c.maxRetries then
      commit c s.phase { s with retries := Function.update s.retries t (s.retries t + 1) }
    else none
  | .review => if s.phase = .reviewing then commit c .synthesizing s else none
  | .synthesize => if s.phase = .synthesizing then commit c .verifying s else none
  | .verifyPass =>
    if s.phase = .verifying ∧ 0 < s.evidenceCount then commit c .completed { s with published := true }
    else none
  | .verifyReject => if s.phase = .verifying then commit c .verificationFailed s else none
  | .suspend =>
    if s.phase = .reasoning ∨ s.phase = .awaitingTools then commit c .suspended s else none
  | .resume => if s.phase = .suspended then commit c .reasoning s else none
  | .cancel => if s.phase.terminal then none else commit c .cancelled { s with pending := ∅ }
  | .hardFail => if s.phase.terminal then none else commit c .hardFailed { s with pending := ∅ }

def next (s : State Tool) : Action Tool → Option (State Tool)
  | .forward action => if s.crashed then none else forward c s action
  | .crash =>
    if s.phase.terminal = false ∧ s.checkpointed ∧ ¬ s.crashed ∧ s.crashCount < c.maxCrashes then
      some { s with crashed := true, crashCount := s.crashCount + 1 }
    else none
  | .restart => if s.crashed then some { s with crashed := false } else none
  | .duplicateOrStaleFrame => some s

/-- `Spec`: each step from the initial state is one of the actions. -/
structure Behaviour (σ : ℕ → State Tool) : Prop where
  init : σ 0 = {}
  next : ∀ n, ∃ action, next c (σ n) action = some (σ (n + 1))

def ForwardStep (s s' : State Tool) : Prop := ∃ action, next c s (.forward action) = some s'

def Restart (s s' : State Tool) : Prop := next c s .restart = some s'

/-- The invariants that are declared, by name; of `TypeOK` what the types do not say. -/
structure Invariants (s : State Tool) : Prop where
  typeOK : s.seq ≤ c.maxSeq ∧ (∀ t, s.retries t ≤ c.maxRetries) ∧ s.crashCount ≤ c.maxCrashes
  pendingCorrespondence : Disjoint s.pending s.completed
  resultUniqueness : ∀ t, s.resultCount t ≤ 1
  completedHasOneResult : ∀ t ∈ s.completed, s.resultCount t = 1
  cancellationSafety : s.phase = .cancelled → s.pending = ∅
  failureSafety : s.phase = .hardFailed → s.pending = ∅
  releaseSafety : s.published = true → s.phase = .completed ∧ 0 < s.evidenceCount
  noUnpublishedCompletion : s.phase = .completed → s.published = true
  retryBounded : ∀ t, s.retries t ≤ c.maxRetries

end Astock.AgentLifecycle
