import Mathlib.Tactic

/-!
# Products of dated factors

Factors that apply from a date on: `within lo hi` is the product of those after `lo` and not after
`hi`, `after lo` of those after `lo`.

* `within_mul_within`, `within_mul_after`: products over adjacent periods.
* `after_filter`: what is known at a date is a product up to it.
-/

namespace Dated

variable {κ M : Type} [LinearOrder κ] [CommMonoid M] {lo mid hi : κ}

/-- The product of the factors that are dated after `lo` and not after `hi`. -/
def within (lo hi : κ) (l : List (κ × M)) : M :=
  ((l.filter fun p => lo < p.1 ∧ p.1 ≤ hi).map Prod.snd).prod

/-- The product of the factors that are dated after `lo`. -/
def after (lo : κ) (l : List (κ × M)) : M := ((l.filter fun p => lo < p.1).map Prod.snd).prod

@[simp] theorem within_nil : within lo hi ([] : List (κ × M)) = 1 := rfl

@[simp] theorem after_nil : after lo ([] : List (κ × M)) = 1 := rfl

theorem within_cons (p : κ × M) (l : List (κ × M)) :
    within lo hi (p :: l) = (if lo < p.1 ∧ p.1 ≤ hi then p.2 else 1) * within lo hi l := by
  by_cases h : lo < p.1 ∧ p.1 ≤ hi
  · rw [within, List.filter_cons_of_pos (by simpa using h), if_pos h]
    rfl
  · rw [within, List.filter_cons_of_neg (by simpa using h), if_neg h, one_mul]
    rfl

theorem after_cons (p : κ × M) (l : List (κ × M)) :
    after lo (p :: l) = (if lo < p.1 then p.2 else 1) * after lo l := by
  by_cases h : lo < p.1
  · rw [after, List.filter_cons_of_pos (by simpa using h), if_pos h]
    rfl
  · rw [after, List.filter_cons_of_neg (by simpa using h), if_neg h, one_mul]
    rfl

theorem within_append (l l' : List (κ × M)) :
    within lo hi (l ++ l') = within lo hi l * within lo hi l' := by
  rw [within, List.filter_append, List.map_append, List.prod_append]
  rfl

/-- Nothing is between a date and itself. -/
theorem within_self (l : List (κ × M)) : within lo lo l = 1 := by
  induction l with
  | nil => rfl
  | cons p l ih =>
    rw [within_cons, if_neg fun h => absurd (h.1.trans_le h.2) (lt_irrefl lo), one_mul, ih]

/-- **Adjacent periods.** -/
theorem within_mul_within (hlo : lo ≤ mid) (hhi : mid ≤ hi) (l : List (κ × M)) :
    within lo mid l * within mid hi l = within lo hi l := by
  induction l with
  | nil => exact one_mul _
  | cons p l ih =>
    rw [within_cons, within_cons, within_cons, ← ih, mul_mul_mul_comm]
    congr 1
    by_cases hp : p.1 ≤ mid
    · have hout : ¬(mid < p.1 ∧ p.1 ≤ hi) := fun h => absurd h.1 (not_lt.2 hp)
      rw [if_neg hout, mul_one]
      refine if_congr ?_ rfl rfl
      exact and_congr_right fun _ => ⟨fun h => h.trans hhi, fun _ => hp⟩
    · rw [if_neg fun h => absurd h.2 hp, one_mul]
      have hlt := not_le.1 hp
      refine if_congr ?_ rfl rfl
      exact and_congr_left fun _ => ⟨fun h => hlo.trans_lt h, fun _ => hlt⟩

theorem within_mul_after (hlo : lo ≤ mid) (l : List (κ × M)) :
    within lo mid l * after mid l = after lo l := by
  induction l with
  | nil => exact one_mul _
  | cons p l ih =>
    rw [within_cons, after_cons, after_cons, ← ih, mul_mul_mul_comm]
    congr 1
    by_cases hp : p.1 ≤ mid
    · rw [if_neg (not_lt.2 hp), mul_one]
      exact if_congr ⟨fun h => h.1, fun h => ⟨h, hp⟩⟩ rfl rfl
    · have hlt := not_le.1 hp
      rw [if_neg fun h => absurd h.2 hp, one_mul, if_pos hlt, if_pos (hlo.trans_lt hlt)]

/-- The product of what is known at a date. -/
theorem after_filter (l : List (κ × M)) : after lo (l.filter (·.1 ≤ hi)) = within lo hi l := by
  rw [after, List.filter_filter, within]
  simp only [Bool.decide_and]

/-- Factors after a period do not count in it. -/
theorem within_filter (hhi : hi ≤ mid) (l : List (κ × M)) :
    within lo hi (l.filter (·.1 ≤ mid)) = within lo hi l := by
  rw [within, within, List.filter_filter]
  congr 2
  refine List.filter_congr fun p _ => ?_
  by_cases h : p.1 ≤ hi
  · simp [h.trans hhi]
  · simp [h]

/-- Factors before a period do not count in it. -/
theorem within_filter_after (hlo : mid ≤ lo) (l : List (κ × M)) :
    within lo hi (l.filter fun p => mid < p.1) = within lo hi l := by
  rw [within, within, List.filter_filter]
  congr 2
  refine List.filter_congr fun p _ => ?_
  by_cases h : lo < p.1
  · simp [hlo.trans_lt h]
  · simp [h]

theorem after_pos {l : List (κ × ℚ)} (h : ∀ p ∈ l, 0 < p.2) : 0 < after lo l := by
  refine List.prod_pos fun x hx => ?_
  obtain ⟨p, hp, rfl⟩ := List.mem_map.1 hx
  exact h p (List.mem_of_mem_filter hp)

end Dated
