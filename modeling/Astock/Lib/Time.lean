import Mathlib.Tactic

/-!
# Durations and instants

A `Duration` is `std::time::Duration` in nanoseconds, an `Instant` a UTC time in
nanoseconds since the epoch.
-/

/-- `std::time::Duration`. -/
structure Duration where
  nanos : ℕ
  deriving DecidableEq

/-- A point of UTC time. -/
abbrev Instant := ℤ

namespace Duration

def fromSecs (n : ℕ) : Duration := ⟨n * 1000000000⟩

/-- `Duration::as_secs`: whole seconds. -/
def asSecs (d : Duration) : ℕ := d.nanos / 1000000000

/-- The digits of a fraction of `10 ^ width`, without the zeros it ends in. -/
def fraction (width n : ℕ) : List Char :=
  let digits := Nat.toDigits 10 n
  let padded := List.replicate (width - digits.length) '0' ++ digits
  (padded.reverse.dropWhile (· = '0')).reverse

/-- A number of units with a fraction of `10 ^ width`. -/
def decimal (whole width frac : ℕ) (unit : String) : String :=
  match fraction width frac with
  | [] => s!"{whole}{unit}"
  | digits => s!"{whole}.{String.ofList digits}{unit}"

/-- The `Debug` text of a duration, in the largest unit that it reaches. -/
def debug (d : Duration) : String :=
  if 1000000000 ≤ d.nanos then decimal (d.nanos / 1000000000) 9 (d.nanos % 1000000000) "s"
  else if 1000000 ≤ d.nanos then decimal (d.nanos / 1000000) 6 (d.nanos % 1000000) "ms"
  else if 1000 ≤ d.nanos then decimal (d.nanos / 1000) 3 (d.nanos % 1000) "µs"
  else s!"{d.nanos}ns"

example : (fromSecs 20).debug = "20s" := by decide
example : (Duration.mk 1500000).debug = "1.5ms" := by decide

end Duration
