import Mathlib.Tactic

/-!
# Runs of a deterministic system

A system is a step function `step : σ → ι → σ`; a run feeds it a list of inputs.

* `run_invariant`: what every step preserves holds in every state a run reaches.
* `run_rel`: if every step from an invariant state is a step of a preorder, so is
  every run.
* `Along`: a run whose steps all meet a condition; `run_invariant_along`, `along_of_invariant` and
  `along_iff` for these.
-/

namespace Run

variable {σ ι : Type} {step : σ → ι → σ} {I : σ → Prop} {R : σ → σ → Prop}

/-- The state after a list of inputs. -/
def run (step : σ → ι → σ) (s : σ) (is : List ι) : σ := is.foldl step s

@[simp] theorem run_nil (s : σ) : run step s [] = s := rfl

@[simp] theorem run_cons (s : σ) (i : ι) (is : List ι) :
    run step s (i :: is) = run step (step s i) is := rfl

theorem run_append (s : σ) (is js : List ι) : run step s (is ++ js) = run step (run step s is) js :=
  List.foldl_append

/-- **Invariants.** -/
theorem run_invariant (hstep : ∀ s i, I s → I (step s i)) : ∀ (is : List ι) (s : σ), I s →
    I (run step s is) := by
  intro is
  induction is with
  | nil => intro s hs; exact hs
  | cons i is ih => intro s hs; exact ih _ (hstep s i hs)

/-- **Monotonicity** along a run that keeps an invariant. -/
theorem run_rel (hrefl : ∀ s, R s s) (htrans : ∀ s t u, R s t → R t u → R s u)
    (hstep : ∀ s i, I s → I (step s i)) (hrel : ∀ s i, I s → R s (step s i)) :
    ∀ (is : List ι) (s : σ), I s → R s (run step s is) := by
  intro is
  induction is with
  | nil => intro s _; exact hrefl s
  | cons i is ih =>
    intro s hs
    exact htrans _ _ _ (hrel s i hs) (ih _ (hstep s i hs))

/-- Every step of the run meets a condition on the state before it and its input. -/
def Along (step : σ → ι → σ) (ok : σ → ι → Prop) : σ → List ι → Prop
  | _, [] => True
  | s, i :: is => ok s i ∧ Along step ok (step s i) is

instance Along.decidable (step : σ → ι → σ) (ok : σ → ι → Prop) [∀ s i, Decidable (ok s i)] :
    ∀ (s : σ) (is : List ι), Decidable (Along step ok s is)
  | _, [] => isTrue trivial
  | s, i :: is =>
    have := Along.decidable step ok (step s i) is
    inferInstanceAs (Decidable (_ ∧ _))

theorem along_append {ok : σ → ι → Prop} {is js : List ι} : ∀ {s : σ},
    Along step ok s (is ++ js) ↔ Along step ok s is ∧ Along step ok (run step s is) js := by
  induction is with
  | nil => intro s; exact ⟨fun h => ⟨trivial, h⟩, fun h => h.2⟩
  | cons i is ih =>
    intro s
    exact (and_congr_right fun _ => ih).trans and_assoc.symm

theorem Along.and {ok : σ → ι → Prop} {p : ι → Prop} {is : List ι} : ∀ {s : σ},
    Along step ok s is → (∀ i ∈ is, p i) → Along step (fun s i => ok s i ∧ p i) s is := by
  induction is with
  | nil => intro s _ _; trivial
  | cons i is ih =>
    intro s hok hp
    exact ⟨⟨hok.1, hp i List.mem_cons_self⟩, ih hok.2 fun j hj => hp j (List.mem_cons_of_mem _ hj)⟩

/-- **Prefixes**: what the steps of a run pass on from one prefix to the next holds of each. -/
theorem along_prefix {ok : σ → ι → Prop} {P : ℕ → σ → Prop} {s : σ} {is : List ι} (h₀ : P 0 s)
    (hstep : ∀ n i, is[n]? = some i → ok (run step s (is.take n)) i → P n (run step s (is.take n)) →
      P (n + 1) (run step s (is.take (n + 1)))) (hok : Along step ok s is) :
    ∀ n ≤ is.length, P n (run step s (is.take n)) := by
  intro n
  induction n with
  | zero => intro _; exact h₀
  | succ n ih =>
    intro hn
    have hi : is[n]? = some is[n] := List.getElem?_eq_getElem (by omega)
    refine hstep n is[n] hi ?_ (ih (by omega))
    have hsplit : is = is.take n ++ is[n] :: is.drop (n + 1) := by
      rw [List.cons_getElem_drop_succ, List.take_append_drop]
    rw [hsplit, along_append] at hok
    exact hok.2.1

theorem run_take_succ {s : σ} {is : List ι} {n : ℕ} {i : ι} (h : is[n]? = some i) :
    run step s (is.take (n + 1)) = step (run step s (is.take n)) i := by
  rw [List.take_add_one, h, run_append]
  rfl

/-- **What an invariant gives**: along a run that keeps it, every step meets what follows from it. -/
theorem along_of_invariant {ok good : σ → ι → Prop} (hstep : ∀ s i, ok s i → I s → I (step s i))
    (hgood : ∀ s i, ok s i → I s → good s i) : ∀ (is : List ι) (s : σ), Along step ok s is → I s →
    Along step good s is := by
  intro is
  induction is with
  | nil => intro s _ _; trivial
  | cons i is ih =>
    intro s hok hs
    exact ⟨hgood s i hok.1 hs, ih _ hok.2 (hstep s i hok.1 hs)⟩

/-- Two conditions that agree on the states of an invariant hold along the same runs. -/
theorem along_congr {ok ok' : σ → ι → Prop} {input : ι → Prop}
    (hstep : ∀ s i, input i → I s → I (step s i)) (h : ∀ s i, input i → I s → (ok s i ↔ ok' s i)) :
    ∀ (is : List ι) (s : σ), (∀ i ∈ is, input i) → I s → (Along step ok s is ↔ Along step ok' s is) := by
  intro is
  induction is with
  | nil => intro s _ _; exact Iff.rfl
  | cons i is ih =>
    intro s hinput hs
    have hi := hinput i List.mem_cons_self
    exact and_congr (h s i hi hs)
      (ih _ (fun j hj => hinput j (List.mem_cons_of_mem _ hj)) (hstep s i hi hs))

/-- Two conditions that agree on the states of an invariant hold along the same runs, also when only
the steps that meet them keep it. -/
theorem along_iff {ok ok' : σ → ι → Prop} (hstep : ∀ s i, ok s i → I s → I (step s i))
    (h : ∀ s i, I s → (ok s i ↔ ok' s i)) : ∀ (is : List ι) (s : σ), I s →
    (Along step ok s is ↔ Along step ok' s is) := by
  intro is
  induction is with
  | nil => intro s _; exact Iff.rfl
  | cons i is ih =>
    intro s hs
    constructor
    · rintro ⟨hi, hrest⟩
      exact ⟨(h s i hs).1 hi, (ih _ (hstep s i hi hs)).1 hrest⟩
    · rintro ⟨hi, hrest⟩
      have hi' := (h s i hs).2 hi
      exact ⟨hi', (ih _ (hstep s i hi' hs)).2 hrest⟩

/-- **Invariants** of the runs whose steps meet a condition. -/
theorem run_invariant_along {ok : σ → ι → Prop} (hstep : ∀ s i, ok s i → I s → I (step s i)) :
    ∀ (is : List ι) (s : σ), Along step ok s is → I s → I (run step s is) := by
  intro is
  induction is with
  | nil => intro s _ hs; exact hs
  | cons i is ih => intro s hok hs; exact ih _ hok.2 (hstep s i hok.1 hs)

end Run
