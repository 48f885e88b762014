import Mathlib.Tactic

/-!
# The daily Chan pipeline

`crates/chanlun/src/daily.rs` as far as the strokes: raw klines are merged by containment, fractals
are the turns of the merged series, strokes connect fractals of opposite type. The slices of dates,
highs and lows, which are of one length, are one list of bars. Prices are anything with comparisons;
the results about shapes ask for a linear order, which is what the comparisons make of all `f64` but
NaN, and no bar whose low is at most its high has one.

The MACD area and the divergence of a stroke, which later stages fill in, are left out.
-/

namespace Astock.Chan

/-- One day of the input slices. -/
structure Bar (F : Type) where
  date : String
  high : F
  low : F
  deriving DecidableEq

/-- A kline after containment merging. -/
structure MergedDailyKline (F : Type) where
  dateStart : String
  dateEnd : String
  high : F
  low : F
  /-- 1 = up, -1 = down, 0 = undetermined (first segment). -/
  direction : ℤ
  rawCount : ℕ
  deriving DecidableEq

inductive FractalType
  | top
  | bottom
  deriving DecidableEq, Repr

/-- A top or bottom fractal on the merged kline series. -/
structure DailyFractal (F : Type) where
  index : ℕ
  fractalType : FractalType
  price : F
  date : String
  deriving DecidableEq

inductive StrokeDirection
  | up
  | down
  deriving DecidableEq, Repr

/-- A stroke connecting two fractals of opposite type. -/
structure DailyStroke (F : Type) where
  direction : StrokeDirection
  startPrice : F
  endPrice : F
  startDate : String
  endDate : String
  /-- Position of the start fractal within the fractal list. -/
  startIdx : ℕ
  endIdx : ℕ
  deriving DecidableEq

variable {F : Type} [LE F] [LT F] [Max F] [Min F] [DecidableLE F] [DecidableLT F]

/-! ## Merging -/

/-- A segment of one raw kline. -/
def openSegment (bar : Bar F) (direction : ℤ) : MergedDailyKline F where
  dateStart := bar.date
  dateEnd := bar.date
  high := bar.high
  low := bar.low
  direction
  rawCount := 1

/-- New kline fully inside the segment or fully wrapping it. -/
def MergedDailyKline.contains (cur : MergedDailyKline F) (bar : Bar F) : Prop :=
  (bar.high ≤ cur.high ∧ cur.low ≤ bar.low) ∨ (cur.high ≤ bar.high ∧ bar.low ≤ cur.low)

instance (cur : MergedDailyKline F) (bar : Bar F) : Decidable (cur.contains bar) :=
  inferInstanceAs (Decidable (_ ∨ _))

/-- Extend extremes along the current direction. -/
def MergedDailyKline.absorb (cur : MergedDailyKline F) (bar : Bar F) : MergedDailyKline F where
  dateStart := cur.dateStart
  dateEnd := bar.date
  high := if cur.direction = -1 then min bar.high cur.high else max bar.high cur.high
  low := if cur.direction = 1 then max bar.low cur.low else min bar.low cur.low
  direction := cur.direction
  rawCount := cur.rawCount + 1

/-- The direction of the segment that a kline opens behind another segment. -/
def directionOf (cur : MergedDailyKline F) (bar : Bar F) : ℤ := if cur.high < bar.high then 1 else -1

/-- The loop of `merge_daily_klines`: the segments from the current one on. -/
def mergeFrom (cur : MergedDailyKline F) : List (Bar F) → List (MergedDailyKline F)
  | [] => [cur]
  | bar :: bars =>
    if cur.contains bar then mergeFrom (cur.absorb bar) bars
    else cur :: mergeFrom (openSegment bar (directionOf cur bar)) bars

/-- Merge raw klines by containment. -/
def mergeDailyKlines : List (Bar F) → List (MergedDailyKline F)
  | [] => []
  | bar :: bars => mergeFrom (openSegment bar 0) bars

/-! ## Fractals -/

/-- The fractal at a kline, given its neighbours. -/
def fractalAt (index : ℕ) (left cur right : MergedDailyKline F) : Option (DailyFractal F) :=
  if left.high < cur.high ∧ right.high < cur.high then
    some { index, fractalType := .top, price := cur.high, date := cur.dateEnd }
  else if cur.low < left.low ∧ cur.low < right.low then
    some { index, fractalType := .bottom, price := cur.low, date := cur.dateEnd }
  else none

/-- The fractals of a series whose second kline has the given index. -/
def fractalsFrom (index : ℕ) : List (MergedDailyKline F) → List (DailyFractal F)
  | left :: cur :: right :: rest =>
    (fractalAt index left cur right).toList ++ fractalsFrom (index + 1) (cur :: right :: rest)
  | _ => []

/-- Find top/bottom fractals; boundary klines are never fractals. -/
def findDailyFractals (merged : List (MergedDailyKline F)) : List (DailyFractal F) :=
  fractalsFrom 1 merged

/-! ## Strokes -/

def StrokeDirection.flip : StrokeDirection → StrokeDirection
  | up => down
  | down => up

/-- The direction of a stroke that starts at a fractal. -/
def FractalType.direction : FractalType → StrokeDirection
  | top => .down
  | bottom => .up

/-- The variables of the loop of `find_daily_strokes`. -/
structure StrokeState (F : Type) where
  start : DailyFractal F
  startPos : ℕ
  direction : StrokeDirection
  /-- The pending endpoint and its position. -/
  stop : Option (DailyFractal F × ℕ) := none

/-- The stroke from the start to an endpoint. -/
def StrokeState.stroke (s : StrokeState F) (stop : DailyFractal F × ℕ) : DailyStroke F where
  direction := s.direction
  startPrice := s.start.price
  endPrice := stop.1.price
  startDate := s.start.date
  endDate := stop.1.date
  startIdx := s.startPos
  endIdx := stop.2

/-- The endpoint of a stroke is the start of the next. -/
def StrokeState.turn (s : StrokeState F) (stop : DailyFractal F × ℕ) : StrokeState F where
  start := stop.1
  startPos := stop.2
  direction := s.direction.flip

/-- An iteration that moves on to the next fractal. -/
def StrokeState.visit (s : StrokeState F) (j : ℕ) (f : DailyFractal F) : StrokeState F :=
  if f.fractalType = s.start.fractalType then
    if (s.direction = .down ∧ s.start.price < f.price) ∨
        (s.direction = .up ∧ f.price < s.start.price) then
      { s with start := f, startPos := j }
    else s
  else if s.start.index + 4 ≤ f.index then { s with stop := some (f, j) }
  else s

/-- The endpoint that a fractal closes. -/
def StrokeState.closedBy (s : StrokeState F) (f : DailyFractal F) : Option (DailyFractal F × ℕ) :=
  if f.fractalType = s.start.fractalType then s.stop else none

/-- The loop of `find_daily_strokes` from position `j` on. A fractal that closes a stroke is looked
at again, and then nothing is pending. -/
def strokesFrom (s : StrokeState F) (j : ℕ) : List (DailyFractal F) → List (DailyStroke F)
  | [] => s.stop.toList.map s.stroke
  | f :: rest =>
    match s.closedBy f with
    | some stop => s.stroke stop :: strokesFrom ((s.turn stop).visit j f) (j + 1) rest
    | none => strokesFrom (s.visit j f) (j + 1) rest

/-- Build strokes from the fractal sequence. -/
def findDailyStrokes : List (DailyFractal F) → List (DailyStroke F)
  | [] => []
  | start :: rest =>
    strokesFrom { start, startPos := 0, direction := start.fractalType.direction } 1 rest

end Astock.Chan
