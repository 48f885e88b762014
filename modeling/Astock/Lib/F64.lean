import Mathlib.Data.Int.Log
import Mathlib.Data.Rat.Floor

/-!
# Double-precision numbers

The operations on `f64` that the modelled code uses, for any type of numbers. Nothing
is assumed about them: what is proved over `F64` holds whatever the rounding is.
-/

class F64 (F : Type) where
  /-- A literal, or the conversion of an integer. -/
  lit : ℚ → F
  mul : F → F → F
  div : F → F → F
  abs : F → F
  powf : F → F → F
  powi : F → ℕ → F
  /-- `a <= b`, false when either is not a number. -/
  le : F → F → Bool
  totalCmp : F → F → Ordering
  toBits : F → ℕ
  /-- `format!("{:.0}", x)`. -/
  round : F → String
  /-- `format!("{}", x)`. -/
  display : F → String

namespace F64

variable {F : Type} [F64 F]

/-- `a < b`. -/
def lt (a b : F) : Bool := le a b && !le b a

/-- `x.clamp(lo, hi)`. -/
def clamp (x lo hi : F) : F := if lt x lo then lo else if lt hi x then hi else x

/-- `(0.0..=1.0).contains(&x)`. -/
def inUnit (x : F) : Bool := le (lit 0) x && le x (lit 1)

/-- The bits of a number that is represented exactly. -/
def exactBits (x : ℚ) : ℕ :=
  if x = 0 then 0
  else
    let exponent := Int.log 2 |x|
    (if x < 0 then 2 ^ 63 else 0) + (exponent + 1023).toNat * 2 ^ 52 +
      ⌊(|x| / 2 ^ exponent - 1) * 2 ^ 52⌋.toNat

/-- The decimal digits of a fraction below one, at most `n` of them. -/
def fractionDigits : ℕ → ℚ → List Char
  | 0, _ => []
  | n + 1, x =>
    if x = 0 then []
    else Nat.digitChar ⌊10 * x⌋.toNat :: fractionDigits n (10 * x - ⌊10 * x⌋)

/-- The decimal text of a number; it is cut when the number has no finite one. -/
def exactDisplay (x : ℚ) : String :=
  let whole := ⌊|x|⌋.toNat
  (if x < 0 then "-" else "") ++ toString whole ++
    match fractionDigits x.den (|x| - whole) with
    | [] => ""
    | digits => "." ++ String.ofList digits

/-- Exact arithmetic: what `f64` computes where nothing is rounded. Powers are taken at whole
exponents. -/
instance exact : F64 ℚ where
  lit := id
  mul := (· * ·)
  div := (· / ·)
  abs := fun x => |x|
  powf := fun x y => x ^ ⌊y⌋
  powi := (· ^ ·)
  le := fun a b => decide (a ≤ b)
  totalCmp := compare
  toBits := exactBits
  round := fun x => toString ⌊x + 1 / 2⌋
  display := exactDisplay

end F64
