import Mathlib.Tactic

/-!
# Runs that may not return

A step `σ → ι → Option σ` gives nothing when it does not return; a run `is.foldlM step s` feeds it a
list of inputs.

* `visits`: the inputs of a run, each with the state before it.
* `invariant`: what the visited steps keep holds in every state of the run.
* `outcomes`: if each step has an outcome, the run has a list of them, one for each input.
* `fair_reaches`: a fair behaviour reaches its goal, if every step that changes something brings it nearer.
-/

namespace Trace

variable {σ ι ο : Type} {step : σ → ι → Option σ}

/-- The inputs of a run, each with the state before it. -/
def visits (step : σ → ι → Option σ) : List ι → σ → List (σ × ι)
  | [], _ => []
  | i :: is, s => (s, i) :: ((step s i).map (visits step is)).getD []

theorem visits_cons {s s' : σ} {i : ι} (h : step s i = some s') (is : List ι) :
    visits step (i :: is) s = (s, i) :: visits step is s' := by
  rw [visits, h]
  rfl

theorem foldlM_cons_eq_some {is : List ι} {i : ι} {s s'' : σ} :
    (i :: is).foldlM step s = some s'' ↔ ∃ s', step s i = some s' ∧ is.foldlM step s' = some s'' := by
  rw [List.foldlM_cons]
  exact Option.bind_eq_some_iff

/-- **Invariants**: what the steps of a run keep. -/
theorem invariant {I : σ → Prop} {is : List ι} : ∀ {s s' : σ}, is.foldlM step s = some s' →
    (∀ v ∈ visits step is s, ∀ s', I v.1 → step v.1 v.2 = some s' → I s') → I s →
    I s' ∧ ∀ v ∈ visits step is s, I v.1 := by
  induction is with
  | nil =>
    intro s s' h _ hs
    obtain rfl : s = s' := Option.some.inj h
    exact ⟨hs, fun v hv => absurd hv List.not_mem_nil⟩
  | cons i is ih =>
    intro s s'' h hstep hs
    obtain ⟨s', hi, hrest⟩ := foldlM_cons_eq_some.1 h
    rw [visits_cons hi] at hstep ⊢
    have hs' := hstep (s, i) List.mem_cons_self s' hs hi
    obtain ⟨hend, hall⟩ := ih hrest (fun v hv => hstep v (List.mem_cons_of_mem _ hv)) hs'
    refine ⟨hend, fun v hv => ?_⟩
    rcases List.mem_cons.1 hv with rfl | hv
    · exact hs
    · exact hall v hv

/-- Each visited step returns, and the rest of the run starts from where it leads. -/
theorem step_of_visits {is : List ι} : ∀ {s s' : σ}, is.foldlM step s = some s' →
    ∀ v ∈ visits step is s, ∃ (s₁ : σ) (rest : List ι), step v.1 v.2 = some s₁ ∧
      rest.foldlM step s₁ = some s' := by
  induction is with
  | nil => intro s s' _ v hv; exact absurd hv List.not_mem_nil
  | cons i is ih =>
    intro s s'' h v hv
    obtain ⟨s', hi, hrest⟩ := foldlM_cons_eq_some.1 h
    rw [visits_cons hi] at hv
    rcases List.mem_cons.1 hv with rfl | hv
    · exact ⟨s', is, hi, hrest⟩
    · exact ih hrest v hv

/-- **Relations** that the steps of a run keep between the state they start from and each later one. -/
theorem relation {R : σ → σ → Prop} (hrefl : ∀ s, R s s) (htrans : ∀ s t u, R s t → R t u → R s u)
    (hstep : ∀ s i s', step s i = some s' → R s s') {is : List ι} : ∀ {s s' : σ},
    is.foldlM step s = some s' → R s s' := by
  induction is with
  | nil =>
    intro s s' h
    obtain rfl : s = s' := Option.some.inj h
    exact hrefl s
  | cons i is ih =>
    intro s s'' h
    obtain ⟨s', hi, hrest⟩ := foldlM_cons_eq_some.1 h
    exact htrans _ _ _ (hstep s i s' hi) (ih hrest)

/-- Each step has an outcome: the outcomes of a run, one for each input. -/
inductive Outcomes (R : σ → ι → ο → σ → Prop) : σ → List ι → List ο → σ → Prop
  | nil (s : σ) : Outcomes R s [] [] s
  | cons {s s' s'' : σ} {i : ι} {o : ο} {is : List ι} {os : List ο} :
    R s i o s' → Outcomes R s' is os s'' → Outcomes R s (i :: is) (o :: os) s''

theorem outcomes {R : σ → ι → ο → σ → Prop} {is : List ι} : ∀ {s s' : σ},
    (∀ v ∈ visits step is s, ∀ s', step v.1 v.2 = some s' → ∃ o, R v.1 v.2 o s') →
    is.foldlM step s = some s' → ∃ os, Outcomes R s is os s' := by
  induction is with
  | nil =>
    intro s s' _ h
    obtain rfl : s = s' := Option.some.inj h
    exact ⟨[], .nil s⟩
  | cons i is ih =>
    intro s s'' hR h
    obtain ⟨s', hi, hrest⟩ := foldlM_cons_eq_some.1 h
    rw [visits_cons hi] at hR
    obtain ⟨o, ho⟩ := hR (s, i) List.mem_cons_self s' hi
    obtain ⟨os, hos⟩ := ih (fun v hv => hR v (List.mem_cons_of_mem _ hv)) hrest
    exact ⟨o :: os, .cons ho hos⟩

/-- Two steps that agree through a map of their states give runs that agree through it. -/
theorem foldlM_map {τ : Type} {step' : τ → ι → Option τ} {f : τ → σ}
    (h : ∀ s i, step (f s) i = (step' s i).map f) (is : List ι) : ∀ s : τ,
    is.foldlM step (f s) = (is.foldlM step' s).map f := by
  induction is with
  | nil => intro s; rfl
  | cons i is ih =>
    intro s
    rw [List.foldlM_cons, List.foldlM_cons, h]
    cases step' s i with
    | none => rfl
    | some s' => exact ih s'

/-! ## Fair behaviours -/

/-- Weak fairness: an action that stays enabled is taken. -/
def WeakFair (act : σ → σ → Prop) (b : ℕ → σ) : Prop :=
  ∀ n, (∀ m ≥ n, ∃ s, act (b m) s) → ∃ m ≥ n, act (b m) (b (m + 1))

/-- **A fair behaviour reaches its goal**, if before it some fair action is enabled that changes the
state, and every change of the state brings it nearer. -/
theorem fair_reaches {κ : Type} {act : κ → σ → σ → Prop} {b : ℕ → σ} (goal : σ → Prop) (μ : σ → ℕ)
    (hfair : ∀ k, WeakFair (act k) b) (hchange : ∀ k n, act k (b n) (b (n + 1)) → b (n + 1) ≠ b n)
    (henabled : ∀ n, ¬ goal (b n) → ∃ k s, act k (b n) s)
    (hnear : ∀ n, ¬ goal (b n) → b (n + 1) ≠ b n → μ (b (n + 1)) < μ (b n)) : ∃ n, goal (b n) := by
  classical
  by_contra hnever
  push Not at hnever
  -- by induction on the distance: no state can be the start of an endless search
  have hall : ∀ d n, μ (b n) = d → False := by
    intro d
    induction d using Nat.strong_induction_on with
    | _ d ih =>
      intro n hd
      by_cases hmoves : ∃ m ≥ n, b (m + 1) ≠ b m
      · -- until the first change the distance is the same
        have hfirst := Nat.find_spec hmoves
        have hsame : ∀ i, n + i ≤ Nat.find hmoves → b (n + i) = b n := by
          intro i
          induction i with
          | zero => intro _; rfl
          | succ i ih =>
            intro hi
            have hstill : ¬ (n + i ≥ n ∧ b (n + i + 1) ≠ b (n + i)) := Nat.find_min hmoves (by omega)
            have heq : b (n + i + 1) = b (n + i) := by
              by_contra hne
              exact hstill ⟨by omega, hne⟩
            rw [← Nat.add_assoc, heq, ih (by omega)]
        have hat : b (Nat.find hmoves) = b n := by
          have heq := hsame (Nat.find hmoves - n) (by omega)
          rwa [Nat.add_sub_cancel' hfirst.1] at heq
        have hless := hnear _ (hnever _) hfirst.2
        rw [hat, hd] at hless
        exact ih _ hless _ rfl
      · push Not at hmoves
        have hsame : ∀ m ≥ n, b m = b n := by
          intro m hm
          induction m, hm using Nat.le_induction with
          | base => rfl
          | succ m hm ih => rw [hmoves m hm, ih]
        obtain ⟨k, s, hact⟩ := henabled n (hnever n)
        obtain ⟨m, hm, htaken⟩ := hfair k n fun m hm => ⟨s, by rwa [hsame m hm]⟩
        exact hchange k m htaken (hmoves m hm)
  exact hall _ 0 rfl

end Trace
