import Astock.Lib.Rounding
import Astock.Spec.Global

/-!
# Currency conversion

The product is checked, the half of the divisor that rounds it is not.

* `convert_of_rejected`, `convert_of_valid`: the conversion in closed form.
* `sum_fits_iff`: when the rounding step stays within `i128`.
* `conversion_exact_iff`: **the conversion is exact or refused** in every build, exactly if it does.
-/

namespace Astock.Global

/-- The arguments of a conversion. -/
structure Conversion where
  amountScaled : Int64
  amountScale : Int64
  rateScaled : Int64
  rateScale : Int64
  outputScale : Int64

namespace Conversion

variable (c : Conversion) (build : Build)

def run : Option (Except Error Int64) :=
  convertCurrencyScaled build c.amountScaled c.amountScale c.rateScaled c.rateScale c.outputScale

/-- The scales are positive and the rate is not negative. -/
def Valid : Prop :=
  0 < c.amountScale.toInt ∧ 0 < c.rateScale.toInt ∧ 0 < c.outputScale.toInt ∧ 0 ≤ c.rateScaled.toInt

def numerator : ℤ := c.amountScaled.toInt * c.rateScaled.toInt * c.outputScale.toInt

def denominator : ℤ := c.amountScale.toInt * c.rateScale.toInt

/-- The exact value, rounded to the nearest integer with halves away from zero. -/
def rounded : ℤ := Rounding.halfAway ((c.numerator : ℚ) / c.denominator)

/-- The conversion does not panic, and gives `v` exactly if the arguments are valid, the product fits
and `v` is the rounded value. -/
def Exact : Prop := ∃ r, c.run build = some r ∧
  ∀ v : Int64, r = .ok v ↔ c.Valid ∧ FitsI128 c.numerator ∧ v.toInt = c.rounded

/-- The product with half of the divisor added on its side. -/
def sum : ℤ :=
  if 0 ≤ c.numerator then c.numerator + c.denominator / 2 else c.numerator - c.denominator / 2

/-- Half of the divisor can be added to a product that fits. -/
def HalfFits : Prop := c.Valid → FitsI128 c.numerator → FitsI128 c.sum

variable {c build}

theorem toInt_fits (a : Int64) : -2 ^ 63 ≤ a.toInt ∧ a.toInt < 2 ^ 63 :=
  ⟨Int64.le_toInt a, Int64.toInt_lt a⟩

/-- A product of two `i64` fits. -/
theorem mul_fits (a b : Int64) : FitsI128 (a.toInt * b.toInt) := by
  obtain ⟨ha, ha'⟩ := toInt_fits a
  obtain ⟨hb, hb'⟩ := toInt_fits b
  have hab : |a.toInt| ≤ 2 ^ 63 := abs_le.2 ⟨ha, ha'.le⟩
  have hbb : |b.toInt| ≤ 2 ^ 63 := abs_le.2 ⟨hb, hb'.le⟩
  have hmul : |a.toInt * b.toInt| ≤ 2 ^ 63 * 2 ^ 63 := by
    rw [abs_mul]
    exact mul_le_mul hab hbb (abs_nonneg _) (by norm_num)
  obtain ⟨hlow, hhigh⟩ := abs_le.1 hmul
  constructor
  · linarith
  · linarith

theorem denominator_pos (h : c.Valid) : 0 < c.denominator := mul_pos h.1 h.2.1

theorem tryFrom_eq_ok_iff {n : ℤ} {v : Int64} : tryFrom n = .ok v ↔ v.toInt = n := by
  unfold tryFrom
  split
  · next h =>
    have hn : (Int64.ofInt n).toInt = n := Int64.toInt_ofInt_of_le h.1 h.2
    constructor
    · intro heq
      rw [← Except.ok.inj heq, hn]
    · intro heq
      rw [← Int64.toInt_inj.1 (hn.trans heq.symm)]
  · next h =>
    constructor
    · intro heq
      cases heq
    · rintro rfl
      exact absurd (toInt_fits v) h

theorem convert_of_rejected (h : ¬ c.Valid) : ∃ e, c.run build = some (.error e) := by
  have hguard : c.amountScale.toInt ≤ 0 ∨ c.rateScale.toInt ≤ 0 ∨ c.outputScale.toInt ≤ 0 ∨
      c.rateScaled.toInt < 0 := by
    by_contra hnot
    push Not at hnot
    exact h hnot
  unfold run convertCurrencyScaled
  rw [if_pos hguard]
  exact ⟨_, rfl⟩

/-- **The conversion** of valid arguments. -/
theorem convert_of_valid (h : c.Valid) : c.run build =
    if FitsI128 c.numerator then
      (build c.denominator).bind fun d => (div d 2).bind fun half =>
        (build (if 0 ≤ c.numerator then c.numerator + half else c.numerator - half)).bind fun sum =>
          (div sum d).bind fun rounded => some (tryFrom rounded)
    else some (.error (.invalidConversion "固定点乘法溢出")) := by
  have hguard : ¬ (c.amountScale.toInt ≤ 0 ∨ c.rateScale.toInt ≤ 0 ∨ c.outputScale.toInt ≤ 0 ∨
      c.rateScaled.toInt < 0) := by
    obtain ⟨h₁, h₂, h₃, h₄⟩ := h
    omega
  have hproduct : (checkedMul c.amountScaled.toInt c.rateScaled.toInt).bind (checkedMul · c.outputScale.toInt) =
      if FitsI128 c.numerator then some c.numerator else none := by
    unfold checkedMul
    rw [if_pos (mul_fits _ _)]
    rfl
  unfold run convertCurrencyScaled
  rw [if_neg hguard, hproduct]
  by_cases hfits : FitsI128 c.numerator
  · simp only [if_pos hfits]
    by_cases hsign : 0 ≤ c.numerator
    · simp only [if_pos hsign]
      rfl
    · simp only [if_neg hsign]
      rfl
  · simp only [if_neg hfits]

/-! ## The rounding step -/

theorem checked_of_fits {n : ℤ} (h : FitsI128 n) : checked n = some n := if_pos h

theorem wrapping_of_fits {n : ℤ} (h : FitsI128 n) : wrapping n = some n := by
  obtain ⟨hlow, hhigh⟩ := h
  unfold wrapping
  rw [Int.bmod_eq_of_le (by norm_num; linarith) (by norm_num; linarith)]

/-- Up to the rounding step, nothing overflows. -/
theorem run_of_valid (hbuild : ∀ n, FitsI128 n → build n = some n) (h : c.Valid)
    (hproduct : FitsI128 c.numerator) : c.run build =
      (build c.sum).bind fun sum => (div sum c.denominator).bind fun rounded => some (tryFrom rounded) := by
  have hpos := denominator_pos h
  have hdenominator : build c.denominator = some c.denominator := hbuild _ (mul_fits _ _)
  have hhalf : div c.denominator 2 = some (c.denominator / 2) := by
    unfold div
    rw [if_neg (by omega), Int.tdiv_eq_ediv_of_nonneg hpos.le]
  rw [convert_of_valid h, if_pos hproduct, hdenominator, Option.bind_some, hhalf, Option.bind_some]
  rfl

/-- **With room for half of the divisor** a build that keeps what fits computes the rounded value. -/
theorem run_of_fits (hbuild : ∀ n, FitsI128 n → build n = some n) (h : c.Valid)
    (hproduct : FitsI128 c.numerator) (hsum : FitsI128 c.sum) :
    c.run build = some (tryFrom c.rounded) := by
  have hpos := denominator_pos h
  have hquotient : div c.sum c.denominator = some c.rounded := by
    have hne : ¬ (c.denominator = 0 ∨ c.sum = -2 ^ 127 ∧ c.denominator = -1) := by omega
    unfold div
    rw [if_neg hne]
    congr 1
    unfold sum rounded
    by_cases hsign : 0 ≤ c.numerator
    · rw [if_pos hsign, Rounding.halfAway_div_of_nonneg hsign hpos]
    · rw [if_neg hsign, Rounding.halfAway_div_of_neg (not_le.1 hsign) hpos]
  rw [run_of_valid hbuild h hproduct, hbuild _ hsum, Option.bind_some, hquotient, Option.bind_some]

/-- A build with overflow checks panics where there is no room. -/
theorem run_checked_of_not_fits (h : c.Valid) (hproduct : FitsI128 c.numerator) (hsum : ¬ FitsI128 c.sum) :
    c.run checked = none := by
  rw [run_of_valid (fun n => checked_of_fits) h hproduct, checked, if_neg hsum]
  rfl

theorem exact_of_halfFits (hbuild : ∀ n, FitsI128 n → build n = some n) (h : c.HalfFits) : c.Exact build := by
  by_cases hvalid : c.Valid
  · by_cases hproduct : FitsI128 c.numerator
    · refine ⟨_, run_of_fits hbuild hvalid hproduct (h hvalid hproduct), fun v => ?_⟩
      rw [tryFrom_eq_ok_iff]
      exact ⟨fun heq => ⟨hvalid, hproduct, heq⟩, fun hall => hall.2.2⟩
    · refine ⟨_, by rw [convert_of_valid hvalid, if_neg hproduct], fun v => ⟨fun heq => ?_, fun hall => ?_⟩⟩
      · cases heq
      · exact absurd hall.2.1 hproduct
  · obtain ⟨e, he⟩ : ∃ e, c.run build = some (.error e) := convert_of_rejected hvalid
    refine ⟨_, he, fun v => ⟨fun heq => ?_, fun hall => ?_⟩⟩
    · cases heq
    · exact absurd hall.1 hvalid

/-- **The conversion is exact or refused** in a build with overflow checks and in one without, exactly if
half of the divisor can be added to the product. -/
theorem conversion_exact_iff (c : Conversion) : c.Exact checked ∧ c.Exact wrapping ↔ c.HalfFits := by
  constructor
  · rintro ⟨⟨r, hrun, -⟩, -⟩ hvalid hproduct
    by_contra hsum
    rw [run_checked_of_not_fits hvalid hproduct hsum] at hrun
    cases hrun
  · intro h
    exact ⟨exact_of_halfFits (fun n => checked_of_fits) h, exact_of_halfFits (fun n => wrapping_of_fits) h⟩

/-- The largest amount and rate, with the largest scales: the exact value is two. -/
private def largest : Conversion where
  amountScaled := Int64.maxValue
  amountScale := Int64.maxValue
  rateScaled := Int64.maxValue
  rateScale := Int64.maxValue
  outputScale := 2

-- without overflow checks, the amount changes its sign
example : largest.run wrapping = some (.ok (-1)) := by decide

theorem rounding_overflows : ¬ ∀ c : Conversion, c.Exact checked ∧ c.Exact wrapping := by
  intro h
  obtain ⟨⟨r, hchecked, -⟩, -⟩ := h largest
  have hnone : largest.run checked = none := by decide
  rw [hnone] at hchecked
  cases hchecked

end Conversion

end Astock.Global
