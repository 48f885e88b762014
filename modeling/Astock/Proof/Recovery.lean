import Astock.Proof.Publication

/-!
# What the recovery policy grants, and what a suspension records

* `plan_spent`: a spent budget ends every fault but the two that ask for a smaller request.
* `spentBudget_iff`: **a run stays within its attempts exactly when neither of these is planned for
  once the budget is spent**.
* `terminalEvent_guided`, `terminalEvent_unguided`: a suspension records a time for a quota and for
  a long rate limit only.
* `suspension_iff`: **guidance survives the suspension exactly for these, while the time exists**.
-/

namespace Astock

/-! ## The attempt budget -/

/-- The actions that send another request. -/
def RecoveryAction.reissues : RecoveryAction → Bool
  | .retryNow | .retryAfter _ | .compactAndRetry => true
  | _ => false

/-- Whether `plan` grants another request; a panic grants none. -/
def grants (last : Instant) (fault : ModelFault) (budget : AttemptBudget) (now : Instant) : Bool :=
  (plan last fault budget now).any RecoveryAction.reissues

/-- A fault handed to `plan`, with the budget at that time. -/
structure PlanCall where
  budget : AttemptBudget
  fault : ModelFault
  now : Instant

/-- The calls of a run that consumes an attempt for each request granted. -/
def planCalls (last : Instant) : AttemptBudget → List (ModelFault × Instant) → List PlanCall
  | _, [] => []
  | budget, (fault, now) :: rest => { budget, fault, now } ::
      planCalls last (if grants last fault budget now then budget.consume.1 else budget) rest

def PlanCall.granted (last : Instant) (call : PlanCall) : Bool :=
  grants last call.fault call.budget call.now

/-- A budget after `k` attempts. -/
def AttemptBudget.after (maxAttempts k : ℕ) : AttemptBudget :=
  (fun budget => budget.consume.1)^[k] (.new maxAttempts)

/-- The faults after which the request has to become smaller. -/
def ModelFault.needsCompaction : ModelFault → Bool
  | .contextLimit | .truncatedOutput => true
  | _ => false

variable {last now : Instant} {budget : AttemptBudget}

theorem plan_spent (hspent : budget.remaining = 0) (fault : ModelFault) :
    grants last fault budget now = fault.needsCompaction := by
  unfold grants plan
  cases fault with
  | truncatedOutput | contextLimit | authentication | invalidRequest =>
    simp [hspent, ModelFault.isTransient, RecoveryAction.reissues, ModelFault.needsCompaction]
  | rateLimited | quotaExhausted | network | emptyTurn | protocolCorruption | modelUnavailable =>
    simp [hspent, ModelFault.isTransient, RecoveryAction.reissues, ModelFault.needsCompaction]

theorem remaining_consume (budget : AttemptBudget) :
    budget.consume.1.remaining = budget.remaining - 1 := by
  show budget.maxAttempts - (budget.attempts + 1) = budget.maxAttempts - budget.attempts - 1
  omega

/-- **Step.** While no request is granted on a spent budget, each one granted lowers it. -/
theorem countP_granted_le (faults : List (ModelFault × Instant)) (budget : AttemptBudget)
    (hspent : ∀ call ∈ planCalls last budget faults, call.budget.remaining = 0 →
      call.granted last = false) :
    (planCalls last budget faults).countP (PlanCall.granted last) ≤ budget.remaining := by
  induction faults generalizing budget with
  | nil => exact Nat.zero_le _
  | cons entry rest ih =>
    obtain ⟨fault, now⟩ := entry
    obtain ⟨hfirst, hrest⟩ := List.forall_mem_cons.1 hspent
    rw [planCalls, List.countP_cons]
    have hle := ih _ hrest
    by_cases hgrant : grants last fault budget now = true
    · rw [if_pos hgrant] at hle ⊢
      rw [remaining_consume] at hle
      have hpos : budget.remaining ≠ 0 := by
        intro hzero
        have hnot := hfirst hzero
        rw [PlanCall.granted, hgrant] at hnot
        exact nomatch hnot
      have hone : (if PlanCall.granted last { budget, fault, now } = true then 1 else 0) ≤ 1 := by
        split <;> omega
      omega
    · rw [if_neg hgrant] at hle ⊢
      have hnot : ¬ PlanCall.granted last { budget, fault, now } = true := hgrant
      rw [if_neg hnot]
      exact hle

theorem maxAttempts_after (maxAttempts k : ℕ) :
    (AttemptBudget.after maxAttempts k).maxAttempts = max maxAttempts 1 := by
  induction k with
  | zero => rfl
  | succ k ih =>
    rw [AttemptBudget.after, Function.iterate_succ_apply']
    exact ih

/-- **A spent budget ends recovery exactly when no context limit and no truncated output is planned
for once it is spent**, in every run, from a budget with any number of attempts behind it. -/
theorem spentBudget_iff (last : Instant) (maxAttempts k : ℕ)
    (faults : List (ModelFault × Instant)) :
    ((planCalls last (.after maxAttempts k) faults).countP (PlanCall.granted last) ≤
        (AttemptBudget.after maxAttempts k).maxAttempts ∧
      ∀ call ∈ planCalls last (.after maxAttempts k) faults, call.budget.remaining = 0 →
        call.granted last = false) ↔
    ∀ call ∈ planCalls last (.after maxAttempts k) faults, call.budget.remaining = 0 →
      call.fault.needsCompaction = false := by
  constructor
  · rintro ⟨-, hspent⟩ call hcall hzero
    rw [← plan_spent hzero call.fault]
    exact hspent call hcall hzero
  · intro hfaults
    have hspent : ∀ call ∈ planCalls last (.after maxAttempts k) faults,
        call.budget.remaining = 0 → call.granted last = false := by
      intro call hcall hzero
      rw [PlanCall.granted, plan_spent hzero]
      exact hfaults call hcall hzero
    have hle := countP_granted_le faults _ hspent
    exact ⟨hle.trans (Nat.sub_le _ _), hspent⟩

/-- With one attempt, a network fault takes it and a full context gets another request. -/
theorem contextLimit_reissued : ¬ ∀ (last : Instant) (maxAttempts k : ℕ)
    (faults : List (ModelFault × Instant)),
    (planCalls last (.after maxAttempts k) faults).countP (PlanCall.granted last) ≤
        (AttemptBudget.after maxAttempts k).maxAttempts ∧
      ∀ call ∈ planCalls last (.after maxAttempts k) faults, call.budget.remaining = 0 →
        call.granted last = false := by
  intro h
  have hcount := (h 0 1 0 [(.network, 0), (.contextLimit, 0)]).1
  revert hcount
  decide

/-! ## Suspension -/

/-- The errors whose time a suspension records. -/
def ProviderError.Guided (error : ProviderError) (d : Duration) : Prop :=
  error.kind = .quota ∨ error.kind = .rateLimited ∧ maxForegroundWait.nanos < d.nanos

/-- The longest delay of `chrono::Duration::from_std`. -/
def maxChronoDelay : ℕ := 9223372036854775807 * 1000000

theorem chronoDelay_held {d : Duration} (h : d.nanos ≤ maxChronoDelay) : chronoDelay d = d.nanos :=
  if_pos h

theorem chronoDelay_lost {d : Duration} (h : ¬ d.nanos ≤ maxChronoDelay) : chronoDelay d = 0 :=
  if_neg h

variable {A : AgentRuntime} {error : ProviderError} {d : Duration}

theorem plan_one (fault : ModelFault) :
    ((AttemptBudget.new 1).remaining = 0 ∧ fault.isTransient = true) = False := by
  simp [AttemptBudget.new, AttemptBudget.remaining]

theorem terminalEvent_guided (hsuspends : AgentRuntime.suspends error = true) (hd : error.retryAfter = some d)
    (hguided : error.Guided d) : A.terminalEvent (.provider error) now =
      (resumeTime A.platform.lastInstant now d).map fun resumeAt =>
        .suspended error.message (some (A.platform.rfc3339 resumeAt))
          (some (ModelFault.classify error).asStr) := by
  unfold AgentRuntime.terminalEvent
  dsimp only
  rw [if_pos hsuspends]
  rcases hguided with hkind | ⟨hkind, hlong⟩
  · have hfault : ModelFault.classify error = .quotaExhausted (some d) := by
      rw [ModelFault.classify, hkind, hd]
    rw [hfault]
    simp only [plan, plan_one, if_false, Option.map_map]
    rfl
  · have hfault : ModelFault.classify error = .rateLimited (some d) := by
      rw [ModelFault.classify, hkind, hd]
    rw [hfault]
    simp only [plan, plan_one, if_false, if_neg (not_le.2 hlong), Option.map_map]
    rfl

theorem terminalEvent_unguided (hsuspends : AgentRuntime.suspends error = true) (hd : error.retryAfter = some d)
    (hguided : ¬ error.Guided d) : A.terminalEvent (.provider error) now =
      some (.suspended error.message none (some (ModelFault.classify error).asStr)) := by
  unfold AgentRuntime.terminalEvent
  dsimp only
  rw [if_pos hsuspends]
  unfold ProviderError.Guided at hguided
  unfold ModelFault.classify
  cases hkind : error.kind with
  | quota => exact absurd (.inl hkind) hguided
  | rateLimited =>
    have hshort : d.nanos ≤ maxForegroundWait.nanos := by
      by_contra hlong
      exact hguided (.inr ⟨hkind, not_le.1 hlong⟩)
    rw [hd]
    simp only [plan, plan_one, if_false, if_pos hshort]
    rfl
  | network | malformedResponse | unavailable | authentication =>
    simp only [plan, plan_one, if_false]
    rfl

/-- The guidance of an error survives its suspension: the time recorded is that of the guidance, and
a time that does not exist is no reason to panic. -/
def GuidanceKept (A : AgentRuntime) (error : ProviderError) (now : Instant) : Prop :=
  ∀ d, error.retryAfter = some d →
    (now + d.nanos ≤ A.platform.lastInstant → A.terminalEvent (.provider error) now =
      some (.suspended error.message (some (A.platform.rfc3339 (now + d.nanos)))
        (some (ModelFault.classify error).asStr))) ∧
    (A.platform.lastInstant < now + d.nanos → A.terminalEvent (.provider error) now ≠ none)

/-- **Guidance survives exactly for a quota and for a rate limit beyond the foreground wait while
the time exists; where it does not, exactly for the other errors and for delays that `chrono` does
not hold.** All times lie within one such delay of each other. -/
theorem suspension_iff (A : AgentRuntime) (error : ProviderError) (now : Instant)
    (hnow : now ≤ A.platform.lastInstant) (hrange : A.platform.lastInstant < now + maxChronoDelay)
    (hsuspends : AgentRuntime.suspends error = true) : GuidanceKept A error now ↔
      ∀ d, error.retryAfter = some d →
        (now + d.nanos ≤ A.platform.lastInstant → error.Guided d) ∧
        (A.platform.lastInstant < now + d.nanos → error.Guided d → maxChronoDelay < d.nanos) := by
  refine forall_congr' fun d => forall_congr' fun hd => ?_
  by_cases hguided : error.Guided d
  · rw [terminalEvent_guided hsuspends hd hguided]
    unfold resumeTime
    by_cases hheld : d.nanos ≤ maxChronoDelay
    · rw [chronoDelay_held hheld]
      by_cases hexists : now + d.nanos ≤ A.platform.lastInstant
      · simp [hexists, hguided]
      · simp [hexists, not_le.1 hexists, hguided, hheld]
    · -- a delay that `chrono` does not hold becomes none at all
      have hlate : A.platform.lastInstant < now + d.nanos := by
        have hlt : (maxChronoDelay : ℤ) < d.nanos := by exact_mod_cast not_le.1 hheld
        linarith
      rw [chronoDelay_lost hheld, add_zero, if_pos hnow]
      simp [not_le.2 hlate, hlate, not_le.1 hheld]
  · rw [terminalEvent_unguided hsuspends hd hguided]
    simp [hguided]

theorem quota_suspension_kept : GuidanceKept (sampleRuntime (sampleEnv []) {})
    { kind := .quota, message := "quota exhausted", retryable := false
      retryAfter := some (.fromSecs 7380) } 0 := by
  refine (suspension_iff _ _ 0 (by decide) (by decide) rfl).2 fun d hd => ?_
  obtain rfl := Option.some.inj hd
  exact ⟨fun _ => .inl rfl, fun hlate => absurd hlate (by decide)⟩

/-- A short rate limit is suspended without its time. -/
theorem shortRateLimit_lost : ¬ ∀ (A : AgentRuntime) (error : ProviderError) (now : Instant),
    now ≤ A.platform.lastInstant → A.platform.lastInstant < now + maxChronoDelay →
      AgentRuntime.suspends error = true → GuidanceKept A error now := by
  intro h
  have hkept := (h (sampleRuntime (sampleEnv []) {})
    { kind := .rateLimited, message := "too many requests", retryable := true
      retryAfter := some (.fromSecs 30) } 0 (by decide) (by decide) rfl _ rfl).1
      (by decide)
  revert hkept
  decide

end Astock
