import Mathlib.Tactic

/-!
# Rounding halves away from zero

The nearest integer of a quotient of integers, and the integer division that computes it.

* `halfAway_neg`: rounding is symmetric.
* `halfAway_div_of_nonneg`, `halfAway_div_of_neg`: half of the divisor is added to the side on which the
  dividend is, and the division is truncated.
-/

namespace Rounding

/-- The nearest integer; halves go away from zero. -/
def halfAway (q : ℚ) : ℤ := if 0 ≤ q then ⌊q + 1 / 2⌋ else ⌈q - 1 / 2⌉

theorem halfAway_neg {q : ℚ} (h : 0 < q) : halfAway (-q) = -halfAway q := by
  have hneg : ¬ (0 : ℚ) ≤ -q := by linarith
  unfold halfAway
  rw [if_neg hneg, if_pos h.le, ← Int.ceil_neg]
  congr 1
  ring

/-- **Adding half of the divisor** rounds a quotient that is not negative. -/
theorem halfAway_div_of_nonneg {n d : ℤ} (hn : 0 ≤ n) (hd : 0 < d) :
    halfAway ((n : ℚ) / d) = (n + d / 2).tdiv d := by
  have hd' : (0 : ℚ) < d := Int.cast_pos.2 hd
  have hq : (0 : ℚ) ≤ (n : ℚ) / d := div_nonneg (Int.cast_nonneg hn) hd'.le
  have hsum : 0 ≤ n + d / 2 := by omega
  unfold halfAway
  rw [if_pos hq, Int.tdiv_eq_ediv_of_nonneg hsum, Int.floor_eq_iff]
  have hquotient := Int.mul_ediv_add_emod (n + d / 2) d
  have hlow := Int.emod_nonneg (n + d / 2) hd.ne'
  have hhigh := Int.emod_lt_of_pos (n + d / 2) hd
  generalize (n + d / 2) / d = k at *
  generalize (n + d / 2) % d = r at *
  -- the quotient and half of the divisor differ from whole numbers by less than one each
  have hbelow : 2 * (d * k) ≤ 2 * n + d := by omega
  have habove : 2 * n + d < 2 * (d * k) + 2 * d := by omega
  have hbelow' : 2 * ((d : ℚ) * k) ≤ 2 * n + d := by exact_mod_cast hbelow
  have habove' : (2 * n + d : ℚ) < 2 * (d * k) + 2 * d := by exact_mod_cast habove
  have hcast : ((n : ℚ) / d + 1 / 2) = (2 * n + d) / (2 * d) := by
    field_simp
  rw [hcast]
  constructor
  · rw [le_div_iff₀ (by linarith)]
    linarith
  · rw [div_lt_iff₀ (by linarith)]
    linarith

/-- **Subtracting half of the divisor** rounds a negative quotient. -/
theorem halfAway_div_of_neg {n d : ℤ} (hn : n < 0) (hd : 0 < d) :
    halfAway ((n : ℚ) / d) = (n - d / 2).tdiv d := by
  have hpos : (0 : ℚ) < ((-n : ℤ) : ℚ) / d := div_pos (Int.cast_pos.2 (by omega)) (Int.cast_pos.2 hd)
  have hcast : (n : ℚ) / d = -(((-n : ℤ) : ℚ) / d) := by
    push_cast
    ring
  have hsum : n - d / 2 = -(-n + d / 2) := by omega
  rw [hcast, halfAway_neg hpos, halfAway_div_of_nonneg (by omega) hd, hsum, Int.neg_tdiv]

end Rounding
