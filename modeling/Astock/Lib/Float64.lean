import Astock.Lib.F64
import Mathlib.Tactic

/-!
# Double-precision arithmetic

The operators, comparisons and conversions of `f64`, for any type of numbers. Nothing is assumed
about them: what is proved over `Float64` holds whatever the rounding is. The rational numbers are
the instance in which nothing is rounded.
-/

class Float64 (F : Type) extends Add F, Sub F, Mul F, Div F, Max F, LE F, LT F, BEq F where
  /-- A literal, or the conversion of an integer. -/
  lit : ℚ → F
  /-- `x.round()`: to the nearest integer, halves away from zero. -/
  round : F → F
  /-- `(x / y).floor().max(0.0) as u32`: at most `u32::MAX`, and 0 for what is not a number. -/
  quotient : F → F → UInt32
  decLe : DecidableLE F
  decLt : DecidableLT F

attribute [instance, reducible] Float64.decLe Float64.decLt

namespace Float64

/-- `n as f64`. -/
def ofU32 {F : Type} [Float64 F] (n : UInt32) : F := lit n.toNat

/-- `u32::MAX`. -/
def u32Max : ℕ := 2 ^ 32 - 1

/-- Exact arithmetic. A quotient by zero is infinite, or is not a number. -/
instance exact : Float64 ℚ where
  lit := id
  round x := if 0 ≤ x then ⌊x + 1 / 2⌋ else -⌊-x + 1 / 2⌋
  quotient x y :=
    if y = 0 then if 0 < x then UInt32.ofNat u32Max else 0
    else UInt32.ofNat (min ⌊x / y⌋.toNat u32Max)
  decLe := inferInstance
  decLt := inferInstance

@[simp] theorem lit_exact (x : ℚ) : (lit x : ℚ) = x := rfl

@[simp] theorem ofU32_exact (n : UInt32) : (ofU32 n : ℚ) = n.toNat := rfl

end Float64

/-- Numbers with the parts of `f64` that printing and reading them back needs. -/
class PrintedFloat (F : Type) extends Float64 F where
  abs : F → F
  toBits : F → ℕ
  /-- `format!("{}", x)`. -/
  display : F → String

namespace PrintedFloat

instance exact : PrintedFloat ℚ where
  abs x := |x|
  toBits := F64.exactBits
  display := F64.exactDisplay

theorem mem_fractionDigits {c : Char} : ∀ (n : ℕ) {x : ℚ}, 0 ≤ x → x < 1 →
    c ∈ F64.fractionDigits n x → c.isDigit
  | 0, _, _, _, h => absurd h List.not_mem_nil
  | n + 1, x, hnonneg, hlt, h => by
    rw [F64.fractionDigits] at h
    split_ifs at h
    · exact absurd h List.not_mem_nil
    · rcases List.mem_cons.1 h with rfl | h
      · have hdigit : ⌊10 * x⌋.toNat < 10 := by
          have hfloor : ⌊10 * x⌋ < 10 := Int.floor_lt.2 (by push_cast; linarith)
          omega
        exact Nat.isDigit_digitChar.trans (decide_eq_true hdigit)
      · exact mem_fractionDigits n (sub_nonneg.2 (Int.floor_le _))
          (by linarith [Int.lt_floor_add_one (10 * x)]) h

/-- The decimal text of a number has digits, a point and a sign in it. -/
theorem mem_exactDisplay {x : ℚ} {c : Char} (h : c ∈ (F64.exactDisplay x).toList) :
    c.isDigit ∨ c = '.' ∨ c = '-' := by
  have hwhole : ((⌊|x|⌋.toNat : ℕ) : ℚ) = ⌊|x|⌋ := by
    have hcast : ((⌊|x|⌋.toNat : ℕ) : ℤ) = ⌊|x|⌋ := Int.toNat_of_nonneg (Int.floor_nonneg.2 (abs_nonneg x))
    exact_mod_cast hcast
  have hfraction : ∀ c ∈ F64.fractionDigits x.den (|x| - ⌊|x|⌋.toNat), c.isDigit := by
    intro c hc
    refine mem_fractionDigits x.den ?_ ?_ hc
    · rw [hwhole]
      exact sub_nonneg.2 (Int.floor_le _)
    · rw [hwhole]
      linarith [Int.lt_floor_add_one |x|]
  rw [F64.exactDisplay, String.toList_append, String.toList_append, List.mem_append,
    List.mem_append] at h
  rcases h with (h | h) | h
  · split_ifs at h
    · exact .inr (.inr (List.mem_singleton.1 h))
    · exact absurd h List.not_mem_nil
  · have hdigits : (toString ⌊|x|⌋.toNat).toList = Nat.toDigits 10 ⌊|x|⌋.toNat := Nat.toList_repr
    rw [hdigits] at h
    exact .inl (Nat.isDigit_of_mem_toDigits (by decide) (by decide) h)
  · split at h
    · exact absurd h List.not_mem_nil
    · rw [String.toList_append, List.mem_append] at h
      rcases h with h | h
      · exact .inr (.inl (List.mem_singleton.1 h))
      · rw [String.toList_ofList] at h
        exact .inl (hfraction c h)

end PrintedFloat

/-!
## Double-precision numbers with powers of two

The powers `2.0_f64.powi(n)` beside the arithmetic of `f64`.
-/

class BinaryFloat (F : Type) extends Float64 F where
  /-- `2.0_f64.powi(n)`. -/
  exp2 : ℤ → F

namespace BinaryFloat

instance exact : BinaryFloat ℚ where
  exp2 n := 2 ^ n

end BinaryFloat

/-!
## Double-precision numbers that are printed with a number of digits
-/

/-- Numbers with the parts of `f64` that a report of prices needs. -/
class FixedFloat (F : Type) extends Float64 F, Min F where
  abs : F → F
  /-- `format!("{:.n}", x)`. -/
  fixed : ℕ → F → String
  /-- `x.round_ties_even() as i64`. -/
  roundTiesEven : F → ℤ

namespace FixedFloat

/-- The nearest integer, the even one of two. -/
def nearestEven (x : ℚ) : ℤ :=
  if x - ⌊x⌋ < 1 / 2 then ⌊x⌋
  else if 1 / 2 < x - ⌊x⌋ then ⌊x⌋ + 1
  else if ⌊x⌋ % 2 = 0 then ⌊x⌋ else ⌊x⌋ + 1

/-- The last `n` decimal digits of a number. -/
def digits : ℕ → ℕ → String
  | 0, _ => ""
  | n + 1, m => digits n (m / 10) ++ toString (m % 10)

/-- Exact arithmetic. -/
instance exact : FixedFloat ℚ where
  abs x := |x|
  fixed n x :=
    let scaled := (nearestEven (|x| * 10 ^ n)).toNat
    (if x < 0 then "-" else "") ++ toString (scaled / 10 ^ n) ++
      if n = 0 then "" else "." ++ digits n scaled
  roundTiesEven := nearestEven

end FixedFloat

/-!
## Double-precision numbers that become integers

`WholeFloat` adds to the arithmetic of `f64` which values are finite and the conversion to `i64`. Of
the arithmetic it states what holds of the whole numbers up to `2 ^ 53`, which are represented
exactly; the rounding of other results is left open.

* `scaled_excess`: the excess of a whole number over one, in a whole number of parts.
-/

class WholeFloat (F : Type) extends Float64 F where
  isFinite : F → Bool
  /-- `x as i64`: what is behind the point is dropped; the ends of the range stand for what is
  beyond them and 0 for what is not a number. -/
  toI64 : F → ℤ
  finite_nat : ∀ n : ℕ, n ≤ 2 ^ 53 → isFinite (lit n)
  pos_nat : ∀ n : ℕ, 0 < n → n ≤ 2 ^ 53 → (lit 0 : F) < lit n
  div_one : ∀ n : ℕ, n ≤ 2 ^ 53 → (lit n / lit 1 : F) = lit n
  sub_one : ∀ n : ℕ, n + 1 ≤ 2 ^ 53 → (lit ((n + 1 : ℕ) : ℚ) - lit 1 : F) = lit n
  mul_nat : ∀ m n : ℕ, m * n ≤ 2 ^ 53 → (lit m * lit n : F) = lit ((m * n : ℕ) : ℚ)
  round_nat : ∀ n : ℕ, n ≤ 2 ^ 53 → round (lit n : F) = lit n
  toI64_nat : ∀ n : ℕ, n ≤ 2 ^ 53 → toI64 (lit n) = n

namespace WholeFloat

open Float64

variable {F : Type} [WholeFloat F]

/-- **The excess of a whole number over one**, in parts of which `scale` make one. -/
theorem scaled_excess {n scale : ℕ} (h : n * scale ≤ 2 ^ 53) (hn : n + 1 ≤ 2 ^ 53) :
    toI64 (round ((lit ((n + 1 : ℕ) : ℚ) / lit 1 - lit 1 : F) * lit scale)) = n * scale := by
  rw [div_one _ hn, sub_one n hn, mul_nat n scale h, round_nat _ h, toI64_nat _ h]
  exact Nat.cast_mul n scale

/-- Exact arithmetic, where nothing is infinite. -/
instance exact : WholeFloat ℚ where
  isFinite _ := true
  toI64 x := max (-2 ^ 63) (min (2 ^ 63 - 1) (if 0 ≤ x then ⌊x⌋ else ⌈x⌉))
  finite_nat _ _ := rfl
  pos_nat n hn _ := by
    have hpos : (0 : ℚ) < n := Nat.cast_pos.2 hn
    exact hpos
  div_one n _ := by
    change (n : ℚ) / 1 = n
    simp
  sub_one n _ := by
    change ((n + 1 : ℕ) : ℚ) - 1 = n
    push_cast
    ring
  mul_nat m n _ := by
    change (m : ℚ) * n = ((m * n : ℕ) : ℚ)
    push_cast
    rfl
  round_nat n _ := by
    have hnonneg : (0 : ℚ) ≤ n := Nat.cast_nonneg n
    have hfloor : ⌊(n : ℚ) + 1 / 2⌋ = n := by
      rw [Int.floor_eq_iff]
      constructor <;> push_cast <;> linarith
    change (if (0 : ℚ) ≤ n then ((⌊(n : ℚ) + 1 / 2⌋ : ℤ) : ℚ) else _) = n
    rw [if_pos hnonneg, hfloor, Int.cast_natCast]
  toI64_nat n hn := by
    have hnonneg : (0 : ℚ) ≤ n := Nat.cast_nonneg n
    change max (-2 ^ 63) (min (2 ^ 63 - 1) (if (0 : ℚ) ≤ n then ⌊(n : ℚ)⌋ else ⌈(n : ℚ)⌉)) = (n : ℤ)
    rw [if_pos hnonneg, Int.floor_natCast]
    omega

end WholeFloat
