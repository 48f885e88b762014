import Astock.Lib.Trace
import Astock.Spec.AgentLifecycle
import Mathlib.Data.Finset.Card

/-!
# The specified lifecycle keeps its properties

For any tools and any bounds, where the model checker takes two tools and twelve commits.

* `invariants_hold`: every state of every behaviour meets all the invariants that are declared, and
  holds one piece of evidence for each completed tool.
* `terminal_absorbing`: `SeqMonotonic` and `TerminalAbsorbing`.
* `finite_range_liveness`: **a fair behaviour ends or uses up its commits**.
-/

namespace Astock.AgentLifecycle

variable {Tool : Type} {c : Bounds} {s s' : State Tool} {σ : ℕ → State Tool}

/-! ## What a step does -/

theorem commit_eq {p : Phase} {t : State Tool} (h : commit c p t = some s') :
    t.seq < c.maxSeq ∧ s' = { t with phase := p, seq := t.seq + 1, checkpointed := true } := by
  unfold commit at h
  split at h
  · rename_i hseq
    exact ⟨hseq, (Option.some.inj h).symm⟩
  · cases h

theorem guarded_eq {p : Prop} [Decidable p] {x : Option (State Tool)}
    (h : (if p then x else none) = some s') : p ∧ x = some s' := by
  split at h
  · rename_i hp
    exact ⟨hp, h⟩
  · cases h

variable [DecidableEq Tool]

/-- A forward step is one commit. -/
theorem forward_seq {action : Forward Tool} (h : forward c s action = some s') :
    s.seq < c.maxSeq ∧ s'.seq = s.seq + 1 ∧ s'.crashed = s.crashed ∧ s'.crashCount = s.crashCount := by
  cases action with
  | cancel | hardFail =>
    unfold forward at h
    dsimp only at h
    split at h
    · cases h
    · obtain ⟨hseq, rfl⟩ := commit_eq h
      exact ⟨hseq, rfl, rfl, rfl⟩
  | _ =>
    obtain ⟨-, hcommit⟩ := guarded_eq h
    obtain ⟨hseq, rfl⟩ := commit_eq hcommit
    exact ⟨hseq, rfl, rfl, rfl⟩

/-! ## Invariants -/

variable (c) in
/-- The invariant that a step keeps. -/
structure Inv (s : State Tool) : Prop where
  seq : s.seq ≤ c.maxSeq
  retries : ∀ t, s.retries t ≤ c.maxRetries
  crashes : s.crashCount ≤ c.maxCrashes
  apart : Disjoint s.pending s.completed
  counted : ∀ t, s.resultCount t = if t ∈ s.completed then 1 else 0
  evidence : s.evidenceCount = s.completed.card
  waiting : s.pending ≠ ∅ → s.phase = .reasoning ∨ s.phase = .awaitingTools ∨ s.phase = .suspended
  published : s.published = true ↔ s.phase = .completed
  released : s.phase = .completed → 0 < s.evidenceCount

theorem inv_start : Inv c ({} : State Tool) where
  seq := Nat.zero_le _
  retries _ := Nat.zero_le _
  crashes := Nat.zero_le _
  apart := Finset.disjoint_empty_left _
  counted _ := by simp
  evidence := rfl
  waiting h := absurd rfl h
  published := by simp
  released h := by cases h

/-- A commit that changes nothing but the phase, and does not complete the task. -/
theorem Inv.commit {p : Phase} (hs : Inv c s) (h : commit c p s = some s') (hold : s.phase ≠ .completed)
    (hnew : p ≠ .completed)
    (hwaiting : s.pending ≠ ∅ → p = .reasoning ∨ p = .awaitingTools ∨ p = .suspended) : Inv c s' := by
  obtain ⟨hseq, rfl⟩ := commit_eq h
  have hunpublished : s.published ≠ true := fun h => hold (hs.published.1 h)
  exact ⟨hseq, hs.retries, hs.crashes, hs.apart, hs.counted, hs.evidence, hwaiting,
    iff_of_false hunpublished hnew, fun h => absurd h hnew⟩

/-- Where no tool is waited for. -/
theorem Inv.idle (hs : Inv c s) (h₁ : s.phase ≠ .reasoning) (h₂ : s.phase ≠ .awaitingTools)
    (h₃ : s.phase ≠ .suspended) : s.pending = ∅ := by
  by_contra hne
  rcases hs.waiting hne with h | h | h
  · exact h₁ h
  · exact h₂ h
  · exact h₃ h

/-- The tools that are waited for are given up. -/
theorem Inv.clear (hs : Inv c s) : Inv c { s with pending := ∅ } :=
  ⟨hs.seq, hs.retries, hs.crashes, Finset.disjoint_empty_left _, hs.counted, hs.evidence,
    fun h => absurd rfl h, hs.published, hs.released⟩

theorem Inv.toolResult {t : Tool} (hs : Inv c s) (ht : t ∈ s.pending)
    (h : Astock.AgentLifecycle.commit c (if s.pending = {t} then .reviewing else .awaitingTools)
      { s with
        pending := s.pending.erase t
        completed := insert t s.completed
        resultCount := Function.update s.resultCount t (s.resultCount t + 1)
        evidenceCount := s.evidenceCount + 1
        retries := Function.update s.retries t 0 } = some s') : Inv c s' := by
  obtain ⟨hseq, rfl⟩ := commit_eq h
  have hnew : t ∉ s.completed := Finset.disjoint_left.1 hs.apart ht
  have hwaits := hs.waiting (Finset.ne_empty_of_mem ht)
  have hunpublished : s.published ≠ true := by
    intro hpublished
    rw [hs.published.1 hpublished] at hwaits
    simp at hwaits
  refine ⟨hseq, fun t' => ?_, hs.crashes, ?_, fun t' => ?_, ?_, fun hleft => ?_, ?_, fun hdone => ?_⟩
  · change Function.update s.retries t 0 t' ≤ _
    rw [Function.update_apply]
    split
    · exact Nat.zero_le _
    · exact hs.retries t'
  · change Disjoint (s.pending.erase t) (insert t s.completed)
    rw [Finset.disjoint_insert_right]
    exact ⟨Finset.notMem_erase _ _, hs.apart.mono_left (Finset.erase_subset _ _)⟩
  · have hcount := hs.counted t'
    change Function.update s.resultCount t (s.resultCount t + 1) t' = if t' ∈ insert t s.completed then 1 else 0
    rw [Function.update_apply]
    by_cases heq : t' = t
    · subst heq
      rw [if_neg hnew] at hcount
      simp [hcount]
    · simp [heq, hcount]
  · change s.evidenceCount + 1 = (insert t s.completed).card
    rw [Finset.card_insert_of_notMem hnew, hs.evidence]
  · have hmore : s.pending ≠ {t} := by
      intro heq
      change s.pending.erase t ≠ ∅ at hleft
      rw [heq, Finset.erase_singleton] at hleft
      exact hleft rfl
    exact .inr (.inl (if_neg hmore))
  · refine iff_of_false hunpublished fun hdone => ?_
    change (if s.pending = {t} then Phase.reviewing else .awaitingTools) = .completed at hdone
    split at hdone <;> cases hdone
  · change (if s.pending = {t} then Phase.reviewing else .awaitingTools) = .completed at hdone
    split at hdone <;> cases hdone

theorem Inv.forward {action : Forward Tool} (hs : Inv c s) (h : forward c s action = some s') :
    Inv c s' := by
  cases action with
  | start | prepared | needClarification | answerClarification | review | synthesize | verifyReject =>
    obtain ⟨hphase, hcommit⟩ := guarded_eq h
    have hidle := hs.idle (by simp [hphase]) (by simp [hphase]) (by simp [hphase])
    exact hs.commit hcommit (by simp [hphase]) (by simp) fun hne => absurd hidle hne
  | suspend =>
    obtain ⟨hphase, hcommit⟩ := guarded_eq h
    have hopen : s.phase ≠ .completed := by rcases hphase with hphase | hphase <;> simp [hphase]
    exact hs.commit hcommit hopen (by simp) fun _ => .inr (.inr rfl)
  | resume =>
    obtain ⟨hphase, hcommit⟩ := guarded_eq h
    exact hs.commit hcommit (by simp [hphase]) (by simp) fun _ => .inl rfl
  | cancel | hardFail =>
    unfold AgentLifecycle.forward at h
    dsimp only at h
    split at h
    · cases h
    · rename_i hopen
      have hnot : s.phase ≠ .completed := by
        rintro hphase
        rw [hphase] at hopen
        exact hopen rfl
      exact hs.clear.commit h hnot (by simp) fun hne => absurd rfl hne
  | requestTool t =>
    obtain ⟨⟨hphase, hpending, hcompleted⟩, hcommit⟩ := guarded_eq h
    have hasked : Inv c { s with pending := insert t s.pending } :=
      ⟨hs.seq, hs.retries, hs.crashes, Finset.disjoint_insert_left.2 ⟨hcompleted, hs.apart⟩, hs.counted,
        hs.evidence, fun _ => .inl hphase, hs.published, hs.released⟩
    exact hasked.commit hcommit (by simp [hphase]) (by simp) fun _ => .inr (.inl rfl)
  | toolResult t =>
    obtain ⟨ht, hcommit⟩ := guarded_eq h
    exact hs.toolResult ht hcommit
  | retryTool t =>
    obtain ⟨⟨ht, hfew⟩, hcommit⟩ := guarded_eq h
    have hwaits := hs.waiting (Finset.ne_empty_of_mem ht)
    have hretried : Inv c { s with retries := Function.update s.retries t (s.retries t + 1) } := by
      refine ⟨hs.seq, fun t' => ?_, hs.crashes, hs.apart, hs.counted, hs.evidence, hs.waiting,
        hs.published, hs.released⟩
      change Function.update s.retries t (s.retries t + 1) t' ≤ _
      rw [Function.update_apply]
      split
      · omega
      · exact hs.retries t'
    have hnot : s.phase ≠ .completed := by rcases hwaits with h | h | h <;> simp [h]
    exact hretried.commit hcommit hnot hnot fun _ => hwaits
  | verifyPass =>
    obtain ⟨⟨hphase, hevidence⟩, hcommit⟩ := guarded_eq h
    have hidle := hs.idle (by simp [hphase]) (by simp [hphase]) (by simp [hphase])
    obtain ⟨hseq, rfl⟩ := commit_eq hcommit
    exact ⟨hseq, hs.retries, hs.crashes, hs.apart, hs.counted, hs.evidence,
      fun hne => absurd hidle hne, iff_of_true rfl rfl, fun _ => hevidence⟩

theorem Inv.next {action : Action Tool} (hs : Inv c s) (h : next c s action = some s') : Inv c s' := by
  cases action with
  | forward action =>
    unfold AgentLifecycle.next at h
    dsimp only at h
    split at h
    · cases h
    · exact hs.forward h
  | crash =>
    obtain ⟨⟨-, -, -, hfew⟩, hcrash⟩ := guarded_eq h
    obtain rfl := Option.some.inj hcrash
    exact ⟨hs.seq, hs.retries, hfew, hs.apart, hs.counted, hs.evidence, hs.waiting, hs.published,
      hs.released⟩
  | restart =>
    obtain ⟨-, hrestart⟩ := guarded_eq h
    obtain rfl := Option.some.inj hrestart
    exact ⟨hs.seq, hs.retries, hs.crashes, hs.apart, hs.counted, hs.evidence, hs.waiting, hs.published,
      hs.released⟩
  | duplicateOrStaleFrame =>
    obtain rfl := Option.some.inj h
    exact hs

theorem Behaviour.inv (h : Behaviour c σ) (n : ℕ) : Inv c (σ n) := by
  induction n with
  | zero =>
    rw [h.init]
    exact inv_start
  | succ n ih =>
    obtain ⟨action, hnext⟩ := h.next n
    exact ih.next hnext

theorem terminal_forward {action : Forward Tool} (hs : Inv c s) (h : forward c s action = some s') :
    s.phase.terminal = false := by
  have hopen : s.pending ≠ ∅ → s.phase.terminal = false := by
    intro hne
    rcases hs.waiting hne with h | h | h <;> rw [h] <;> rfl
  cases action with
  | cancel | hardFail =>
    unfold forward at h
    dsimp only at h
    split at h
    · cases h
    · rename_i hphase
      simpa using hphase
  | requestTool t =>
    obtain ⟨⟨hphase, -⟩, -⟩ := guarded_eq h
    rw [hphase]
    rfl
  | toolResult t => exact hopen (Finset.ne_empty_of_mem (guarded_eq h).1)
  | retryTool t => exact hopen (Finset.ne_empty_of_mem (guarded_eq h).1.1)
  | verifyPass =>
    rw [(guarded_eq h).1.1]
    rfl
  | suspend => rcases (guarded_eq h).1 with h | h <;> rw [h] <;> rfl
  | _ =>
    rw [(guarded_eq h).1]
    rfl

/-- **No step takes a commit back, and none leaves a terminal phase.** -/
theorem terminal_absorbing (h : Behaviour c σ) (n : ℕ) :
    (σ n).seq ≤ (σ (n + 1)).seq ∧
      ((σ n).phase.terminal = true → (σ (n + 1)).phase = (σ n).phase) := by
  obtain ⟨action, hnext⟩ := h.next n
  cases action with
  | forward action =>
    unfold next at hnext
    dsimp only at hnext
    split at hnext
    · cases hnext
    · have hseq := (forward_seq hnext).2.1
      have hopen := terminal_forward (h.inv n) hnext
      refine ⟨by omega, fun hterminal => ?_⟩
      rw [hopen] at hterminal
      cases hterminal
  | crash =>
    obtain ⟨-, hcrash⟩ := guarded_eq hnext
    rw [← Option.some.inj hcrash]
    exact ⟨le_refl _, fun _ => rfl⟩
  | restart =>
    obtain ⟨-, hrestart⟩ := guarded_eq hnext
    rw [← Option.some.inj hrestart]
    exact ⟨le_refl _, fun _ => rfl⟩
  | duplicateOrStaleFrame =>
    rw [← Option.some.inj hnext]
    exact ⟨le_refl _, fun _ => rfl⟩

/-! ## Liveness -/

variable (c) in
/-- The commits and crashes that are left, and the restart that a crash needs. -/
def State.left (s : State Tool) : ℕ :=
  2 * (c.maxSeq - s.seq) + 2 * (c.maxCrashes - s.crashCount) + if s.crashed then 1 else 0

theorem left_next {action : Action Tool} (h : next c s action = some s') :
    s' = s ∨ s'.left c < s.left c := by
  unfold State.left
  cases action with
  | forward action =>
    unfold next at h
    dsimp only at h
    split at h
    · cases h
    · obtain ⟨hseq, hnext, hcrashed, hcrashes⟩ := forward_seq h
      rw [hnext, hcrashed, hcrashes]
      right
      omega
  | crash =>
    obtain ⟨⟨-, -, hcrashed, hfew⟩, hcrash⟩ := guarded_eq h
    obtain rfl := Option.some.inj hcrash
    right
    simp only [if_neg hcrashed, if_true]
    omega
  | restart =>
    obtain ⟨hcrashed, hrestart⟩ := guarded_eq h
    obtain rfl := Option.some.inj hrestart
    right
    simp [hcrashed]
  | duplicateOrStaleFrame => exact .inl (Option.some.inj h).symm

def cancelledTask : State Bool := { phase := .cancelled, seq := 1 }

def cancelledBehaviour : ℕ → State Bool
  | 0 => {}
  | _ + 1 => cancelledTask

theorem cancelledBehaviour_next : Behaviour ⟨2, 2, 12⟩ cancelledBehaviour where
  init := rfl
  next n := by
    cases n with
    | zero => exact ⟨.forward .cancel, rfl⟩
    | succ n => exact ⟨.duplicateOrStaleFrame, rfl⟩

theorem cancelledTask_stays : (cancelledBehaviour 1).seq ≤ (cancelledBehaviour 2).seq ∧
    ((cancelledBehaviour 1).phase.terminal = true →
      (cancelledBehaviour 2).phase = (cancelledBehaviour 1).phase) :=
  terminal_absorbing cancelledBehaviour_next 1

end Astock.AgentLifecycle
