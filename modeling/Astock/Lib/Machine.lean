import Mathlib.Tactic

/-!
# Machine integers

## 64-bit integers

An `i64` is an integer; the operations that stop at the ends of its range are defined here.
-/

/-- `i64::MAX`. -/
def i64Max : ℤ := 2 ^ 63 - 1

/-- The nearest `i64`: what `saturating_add`, `saturating_sub` and `saturating_mul` make of the
exact result. -/
def saturate (n : ℤ) : ℤ := max (-2 ^ 63) (min i64Max n)

/-- The number that decimal digits stand for; none without digits. -/
def decimal? (digits : List Char) : Option ℕ :=
  if digits.isEmpty || !digits.all Char.isDigit then none
  else some (digits.foldl (fun n c => n * 10 + (c.toNat - '0'.toNat)) 0)

/-- `str::parse::<i64>().ok()`: decimal digits behind at most one sign. -/
def parseI64 (s : String) : Option ℤ :=
  let value : Option ℤ := match s.toList with
    | '-' :: digits => (decimal? digits).map fun n => -(n : ℤ)
    | '+' :: digits => (decimal? digits).map fun n => (n : ℤ)
    | digits => (decimal? digits).map fun n => (n : ℤ)
  value.filter fun n => -2 ^ 63 ≤ n && n ≤ i64Max

/-- What an `i64` operation without a check leaves of the exact result. -/
def wrapI64 (n : ℤ) : ℤ := n.bmod (2 ^ 64)

/-!
## 32-bit counts

What the wrapping arithmetic of `u32` gives where nothing wraps.
-/

namespace U32

variable {a b : UInt32}

theorem toNat_ofNat {n : ℕ} (h : n < 2 ^ 32) : (UInt32.ofNat n).toNat = n :=
  UInt32.toNat_ofNat_of_lt' h

theorem toNat_add (h : a.toNat + b.toNat < 2 ^ 32) : (a + b).toNat = a.toNat + b.toNat := by
  rw [UInt32.toNat_add, Nat.mod_eq_of_lt h]

theorem toNat_sub (h : b.toNat ≤ a.toNat) : (a - b).toNat = a.toNat - b.toNat :=
  UInt32.toNat_sub_of_le _ _ (UInt32.le_iff_toNat_le.2 h)

theorem toNat_min (a b : UInt32) : (min a b).toNat = min a.toNat b.toNat := by
  have hmin : min a b = if a ≤ b then a else b := rfl
  rw [hmin]
  split
  · rename_i h
    exact (min_eq_left (UInt32.le_iff_toNat_le.1 h)).symm
  · rename_i h
    rw [UInt32.le_iff_toNat_le, not_le] at h
    exact (min_eq_right h.le).symm

theorem toNat_pos (h : a ≠ 0) : 0 < a.toNat := by
  refine Nat.pos_of_ne_zero fun h₀ => h ?_
  exact UInt32.toNat_inj.1 h₀

end U32
