import Mathlib.Algebra.BigOperators.Group.Finset.Basic
import Mathlib.Algebra.Order.Field.Basic
import Mathlib.Tactic

/-!
# What nodes pass on along edges

A list of pairs over `0, .., n - 1`: each pair is an edge from its first to its second component,
and a node passes what it has on in equal shares, one for each edge that leaves it.

* `sum_sources`: summing over the edges that arrive is summing over the edges that leave.
* `sum_shares`: **what arrives everywhere is what the nodes with an edge had**.
-/

namespace Transfer

open Finset

variable {K : Type} {n : ℕ} {pairs : List (ℕ × ℕ)}

/-- The number of edges that leave `s`. -/
def degree (pairs : List (ℕ × ℕ)) (s : ℕ) : ℕ := pairs.countP fun p => p.1 = s

/-- Where the edges that arrive at `d` come from. -/
def sources (pairs : List (ℕ × ℕ)) (d : ℕ) : List ℕ :=
  (pairs.filter fun p => p.2 = d).map Prod.fst

theorem degree_append (s d : ℕ) :
    degree (pairs ++ [(s, d)]) = Function.update (degree pairs) s (degree pairs s + 1) := by
  funext i
  by_cases hi : s = i
  · subst hi
    simp [degree]
  · rw [Function.update_of_ne (Ne.symm hi)]
    simp [degree, hi]

theorem sources_append (s d : ℕ) :
    sources (pairs ++ [(s, d)]) = Function.update (sources pairs) d (sources pairs d ++ [s]) := by
  funext i
  by_cases hi : d = i
  · subst hi
    simp [sources]
  · rw [Function.update_of_ne (Ne.symm hi)]
    simp [sources, hi]

/-- A source has an edge that leaves it. -/
theorem of_mem_sources {s d : ℕ} (h : s ∈ sources pairs d) :
    (∃ p ∈ pairs, p.1 = s) ∧ degree pairs s ≠ 0 := by
  obtain ⟨p, hp, rfl⟩ := List.mem_map.1 h
  have hmem := (List.mem_filter.1 hp).1
  refine ⟨⟨p, hmem, rfl⟩, ?_⟩
  have hpos : 0 < degree pairs p.1 := List.countP_pos_iff.2 ⟨p, hmem, by simp⟩
  omega

/-- **The sum over the edges that arrive is the sum over the edges that leave.** -/
theorem sum_sources [Semiring K] (hpairs : ∀ p ∈ pairs, p.1 < n ∧ p.2 < n) (f : ℕ → K) :
    ∑ d ∈ range n, ((sources pairs d).map f).sum = ∑ s ∈ range n, (degree pairs s : K) * f s := by
  induction pairs with
  | nil => simp [sources, degree]
  | cons p pairs ih =>
    obtain ⟨⟨hs, hd⟩, hrest⟩ := List.forall_mem_cons.1 hpairs
    have hleft : ∀ d, ((sources (p :: pairs) d).map f).sum =
        (if p.2 = d then f p.1 else 0) + ((sources pairs d).map f).sum := by
      intro d
      by_cases h : p.2 = d
      · simp [sources, h]
      · simp [sources, h]
    have hright : ∀ s, (degree (p :: pairs) s : K) * f s =
        (if p.1 = s then f p.1 else 0) + (degree pairs s : K) * f s := by
      intro s
      by_cases h : p.1 = s
      · subst h
        simp [degree, add_mul, add_comm]
      · simp [degree, h]
    simp only [hleft, hright, sum_add_distrib, ih hrest]
    rw [sum_ite_eq, sum_ite_eq, if_pos (mem_range.2 hs), if_pos (mem_range.2 hd)]

/-- **Equal shares pass on all that the nodes with an edge have.** -/
theorem sum_shares [Field K] [CharZero K] (hpairs : ∀ p ∈ pairs, p.1 < n ∧ p.2 < n) (f : ℕ → K) :
    ∑ d ∈ range n, ((sources pairs d).map fun s => f s / (degree pairs s : K)).sum +
      ∑ s ∈ range n, (if degree pairs s = 0 then f s else 0) = ∑ s ∈ range n, f s := by
  rw [sum_sources hpairs, ← sum_add_distrib]
  refine sum_congr rfl fun s _ => ?_
  by_cases h : degree pairs s = 0
  · simp [h]
  · have hne : (degree pairs s : K) ≠ 0 := Nat.cast_ne_zero.2 h
    rw [if_neg h, add_zero]
    field_simp

end Transfer
