import Astock.Lib.Float64
import Mathlib.Analysis.SpecialFunctions.Log.Basic

/-!
# Double-precision numbers with infinities

`AnalyticFloat` adds to the arithmetic of `f64` the functions that calculations use, and which values
are finite. What it states of the comparisons is their documentation; the rounding is left open.

* `Extended`: an instance with infinities and NaN. It rounds nothing, and what leaves the range is
  infinite.
-/

class AnalyticFloat (F : Type) extends Float64 F, Neg F, Min F where
  isFinite : F → Bool
  abs : F → F
  sqrt : F → F
  ln : F → F
  powi : F → ℕ → F
  /-- Small literals do not overflow. -/
  finite_lit : ∀ q : ℚ, |q| ≤ 2 ^ 64 → isFinite (lit q)
  /-- Only what is not a number is unordered. -/
  le_of_not_lt : ∀ x y : F, isFinite x → isFinite y → ¬ y < x → x ≤ y
  lt_trans : ∀ x y z : F, x < y → y < z → x < z
  /-- `f64::min` takes the smaller number. -/
  min_of_lt : ∀ x y : F, y < x → min x y = y
  /-- Otherwise it keeps the number it has, up to the sign of a zero. -/
  min_of_not_lt : ∀ x y : F, isFinite x → ¬ y < x →
    isFinite (min x y) ∧ ∀ z, z < min x y → z < x
  /-- What is below zero and not finite is below every finite number. -/
  lt_of_not_finite : ∀ x y : F, ¬ isFinite x → x < lit 0 → isFinite y → x < y
  /-- Nothing is below such a number, so that it stays the smallest. -/
  min_of_not_finite : ∀ x y : F, ¬ isFinite x → x < lit 0 → ¬ isFinite (min x y) ∧ min x y < lit 0

/-- A number of unlimited precision within the range of `f64`. -/
inductive Extended
  | number (q : ℚ)
  | posInf
  | negInf
  | nan
  deriving DecidableEq, Repr

namespace Extended

/-- What leaves the range is infinite. -/
def ofRat (q : ℚ) : Extended :=
  if 2 ^ 1024 ≤ q then posInf else if q ≤ -2 ^ 1024 then negInf else number q

/-- The place of a value in the order; what is not a number has none. -/
def place : Extended → Option (WithBot (WithTop ℚ))
  | number q => some ((q : WithTop ℚ) : WithBot (WithTop ℚ))
  | posInf => some ((⊤ : WithTop ℚ) : WithBot (WithTop ℚ))
  | negInf => some ⊥
  | nan => none

def lt (x y : Extended) : Bool :=
  match x.place, y.place with
  | some a, some b => decide (a < b)
  | _, _ => false

def le (x y : Extended) : Bool :=
  match x.place, y.place with
  | some a, some b => decide (a ≤ b)
  | _, _ => false

def neg : Extended → Extended
  | number q => number (-q)
  | posInf => negInf
  | negInf => posInf
  | nan => nan

def add : Extended → Extended → Extended
  | number p, number q => ofRat (p + q)
  | nan, _ | _, nan | posInf, negInf | negInf, posInf => nan
  | posInf, _ | _, posInf => posInf
  | negInf, _ | _, negInf => negInf

/-- The infinity of a sign; the product of an infinity and zero is not a number. -/
def signed (q : ℚ) : Extended := if 0 < q then posInf else if q < 0 then negInf else nan

def mul : Extended → Extended → Extended
  | number p, number q => ofRat (p * q)
  | nan, _ | _, nan => nan
  | number q, posInf | posInf, number q => signed q
  | number q, negInf | negInf, number q => signed (-q)
  | posInf, posInf | negInf, negInf => posInf
  | posInf, negInf | negInf, posInf => negInf

def div : Extended → Extended → Extended
  | number p, number q => if q = 0 then signed p else ofRat (p / q)
  | nan, _ | _, nan => nan
  | number _, _ => number 0
  | posInf, number q => if q < 0 then negInf else posInf
  | negInf, number q => if q < 0 then posInf else negInf
  | _, _ => nan

def min (x y : Extended) : Extended :=
  if x = nan then y else if lt y x then y else x

def max (x y : Extended) : Extended :=
  if x = nan then y else if lt x y then y else x

/-- Exact where the root is rational. -/
def sqrt : Extended → Extended
  | number q => if q < 0 then nan else number (Rat.sqrt q)
  | posInf => posInf
  | _ => nan

/-- Exact where the logarithm is rational. -/
def ln : Extended → Extended
  | number q => if q = 1 then number 0 else if q = 0 then negInf else nan
  | posInf => posInf
  | _ => nan

def powi (x : Extended) (n : ℕ) : Extended := (List.replicate n x).foldl mul (number 1)

instance float64 : Float64 Extended where
  add := add
  sub x y := add x (neg y)
  mul := mul
  div := div
  max := max
  le x y := le x y = true
  lt x y := lt x y = true
  beq x y := decide (x = y ∧ x ≠ nan)
  lit := ofRat
  round
    | number q => number (Float64.round q)
    | x => x
  quotient
    | number p, number q => Float64.quotient p q
    | posInf, number q => if q < 0 then 0 else UInt32.ofNat Float64.u32Max
    | _, _ => 0
  decLe _ _ := inferInstanceAs (Decidable (_ = true))
  decLt _ _ := inferInstanceAs (Decidable (_ = true))

theorem lt_iff {x y : Extended} :
    x < y ↔ ∃ a b, x.place = some a ∧ y.place = some b ∧ a < b := by
  change lt x y = true ↔ _
  rw [lt]
  split
  · rename_i a b hx hy
    simp [hx, hy]
  · rename_i h
    refine ⟨fun hfalse => absurd hfalse (by decide), ?_⟩
    rintro ⟨a, b, hx, hy, -⟩
    exact (h a b hx hy).elim

def isFinite : Extended → Bool
  | number _ => true
  | _ => false

theorem finite_ofRat {q : ℚ} (h : |q| ≤ 2 ^ 64) : (ofRat q).isFinite = true := by
  obtain ⟨hlow, hhigh⟩ := abs_le.1 h
  have hsmall : (2 : ℚ) ^ 64 < 2 ^ 1024 := pow_lt_pow_right₀ one_lt_two (by decide)
  have hbelow : ¬ q ≤ -2 ^ 1024 := fun hq => (neg_lt_neg hsmall).not_ge (hlow.trans hq)
  rw [ofRat, if_neg (hhigh.trans_lt hsmall).not_ge, if_neg hbelow]
  rfl

/-- What is below zero and not finite is the negative infinity. -/
theorem eq_negInf {x : Extended} (hx : ¬ x.isFinite = true) (h : x < ofRat 0) : x = negInf := by
  obtain ⟨a, b, ha, hb, hab⟩ := lt_iff.1 h
  cases x with
  | number q => exact absurd rfl hx
  | posInf =>
    obtain rfl : ((⊤ : WithTop ℚ) : WithBot (WithTop ℚ)) = a := Option.some.inj ha
    exact absurd hab not_top_lt
  | negInf => rfl
  | nan => cases ha

theorem not_lt_negInf (x : Extended) : ¬ x < negInf := by
  intro h
  obtain ⟨a, b, -, hb, hab⟩ := lt_iff.1 h
  obtain rfl : ⊥ = b := Option.some.inj hb
  exact not_lt_bot hab

instance analytic : AnalyticFloat Extended where
  neg := neg
  min := min
  isFinite := isFinite
  abs
    | number q => number |q|
    | nan => nan
    | _ => posInf
  sqrt := sqrt
  ln := ln
  powi := powi
  finite_lit _ h := finite_ofRat h
  le_of_not_lt x y hx hy h := by
    cases x with
    | number p =>
      cases y with
      | number q =>
        have hpq : ¬ q < p := fun hlt => h (lt_iff.2 ⟨_, _, rfl, rfl, by exact_mod_cast hlt⟩)
        change le (number p) (number q) = true
        simpa [le, place] using hpq
      | _ => cases hy
    | _ => cases hx
  lt_trans x y z hxy hyz := by
    obtain ⟨a, b, ha, hb, hab⟩ := lt_iff.1 hxy
    obtain ⟨b', c, hb', hc, hbc⟩ := lt_iff.1 hyz
    obtain rfl : b = b' := Option.some.inj (hb.symm.trans hb')
    exact lt_iff.2 ⟨a, c, ha, hc, hab.trans hbc⟩
  min_of_lt x y h := by
    change min x y = y
    rw [min]
    split
    · rfl
    · exact if_pos h
  min_of_not_lt x y hx h := by
    change (min x y).isFinite = true ∧ ∀ z, z < min x y → z < x
    have hnan : x ≠ nan := by rintro rfl; cases hx
    have hlt : ¬ lt y x = true := h
    rw [min, if_neg hnan, if_neg hlt]
    exact ⟨hx, fun _ hz => hz⟩
  lt_of_not_finite x y hx h hy := by
    obtain rfl := eq_negInf hx h
    cases y with
    | number q => exact lt_iff.2 ⟨⊥, _, rfl, rfl, WithBot.bot_lt_coe _⟩
    | _ => cases hy
  min_of_not_finite x y hx h := by
    obtain rfl := eq_negInf hx h
    change ¬ (min negInf y).isFinite = true ∧ min negInf y < ofRat 0
    have hlt : ¬ lt y negInf = true := not_lt_negInf y
    rw [min, if_neg (by decide), if_neg hlt]
    exact ⟨by decide, h⟩

end Extended

/-!
## Real numbers as double-precision numbers

The instance of `AnalyticFloat` in which nothing is rounded, every root and logarithm is exact and every
number is finite.
-/

open Classical in
noncomputable instance Float64.real : Float64 ℝ where
  beq x y := decide (x = y)
  lit q := q
  round x := if 0 ≤ x then ⌊x + 1 / 2⌋ else -⌊-x + 1 / 2⌋
  quotient x y :=
    if y = 0 then if 0 < x then UInt32.ofNat u32Max else 0
    else UInt32.ofNat (min ⌊x / y⌋.toNat u32Max)
  decLe := inferInstance
  decLt := inferInstance

noncomputable instance AnalyticFloat.real : AnalyticFloat ℝ where
  isFinite _ := true
  abs x := |x|
  sqrt := Real.sqrt
  ln := Real.log
  powi x n := x ^ n
  finite_lit _ _ := rfl
  le_of_not_lt _ _ _ _ h := not_lt.1 h
  lt_trans _ _ _ hxy hyz := hxy.trans hyz
  min_of_lt _ _ h := min_eq_right h.le
  min_of_not_lt _ _ _ _ := ⟨rfl, fun _ hz => (lt_min_iff.1 hz).1⟩
  lt_of_not_finite _ _ h _ _ := absurd rfl h
  min_of_not_finite _ _ h _ := absurd rfl h

namespace AnalyticFloat

@[simp] theorem lit_real (q : ℚ) : (Float64.lit q : ℝ) = q := rfl

@[simp] theorem beq_real (x y : ℝ) : (x == y) = decide (x = y) := rfl

@[simp] theorem powi_real (x : ℝ) (n : ℕ) : powi x n = x ^ n := rfl

@[simp] theorem sqrt_real (x : ℝ) : AnalyticFloat.sqrt x = Real.sqrt x := rfl

end AnalyticFloat
