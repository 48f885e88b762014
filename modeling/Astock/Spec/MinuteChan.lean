import Astock.Lib.Checked
import Astock.Lib.Float64
import Astock.Lib.Machine
import Astock.Spec.Chan
import Astock.Spec.DailyAnalysis

/-!
# The minute Chan pipeline

`crates/chanlun/src/minute.rs` as far as the divergence of the strokes: one-minute bars become
five-minute klines, which are merged; fractals, strokes, MACD and divergence follow. A value is missing
where an index or a slice is out of range.
-/

namespace Astock.Chan

open Checked

/-- A 5-minute kline aggregated from 1-minute bars. -/
structure MinuteKline (F : Type) where
  time : String
  «open» : F
  close : F
  high : F
  low : F
  volume : F
  deriving DecidableEq

/-! ## Five-minute klines -/

/-- `to_minutes`: the minutes since midnight of `HH:MM`, as an `i64` that wraps around. -/
def toMinutes (t : String) : BitVec 64 :=
  let parts := t.toList.splitOn ':'
  let number (i : ℕ) : ℤ := (parseI64 (String.ofList (parts[i]?.getD ['0']))).getD 0
  BitVec.ofInt 64 (number 0) * 60 + BitVec.ofInt 64 (number 1)

section FiveMinutes

/-! `⊥` and `⊤` are the infinities. -/

variable {F : Type} [Max F] [Min F] [Bot F] [Top F] [Add F] [Zero F] (times : List String)
  (prices volumes : List F)

/-- Aggregate a group of minute indices into one kline. -/
def makeKline (group : List ℕ) : Option (MinuteKline F) := do
  let first ← group[0]?
  let last ← group[group.length - 1]?
  let (high, low, volume) ← group.foldlM (fun (high, low, volume) i => do
    let price ← prices[i]?
    let traded ← volumes[i]?
    some (max high price, min low price, volume + traded)) (⊥, ⊤, 0)
  some {
    time := ← times[last]?
    «open» := ← prices[first]?
    close := ← prices[last]?
    high, low, volume }

/-- The variables of the loop. -/
structure GroupState (F : Type) where
  klines : List (MinuteKline F)
  group : List ℕ
  groupStartMinute : BitVec 64

/-- Push the kline of a group, and start over. -/
def GroupState.close (s : GroupState F) (group : List ℕ) : Option (GroupState F) := do
  let kline ← makeKline times prices volumes group
  some { s with klines := s.klines ++ [kline], group := [] }

/-- Session break: a non-1-minute gap from the previous minute. -/
def GroupState.breakSession (s : GroupState F) (i : ℕ) (curMinute : BitVec 64) :
    Option (GroupState F) :=
  if s.group = [] then some s
  else do
    let previous ← times[i - 1]?
    if curMinute - toMinutes previous = 1 then some s
    else return { ← s.close times prices volumes s.group with groupStartMinute := curMinute }

/-- Close the group after 5 minutes, or flush a trailing partial group. -/
def GroupState.push (s : GroupState F) (i : ℕ) (curMinute : BitVec 64) : Option (GroupState F) :=
  let start := if s.group = [] then curMinute else s.groupStartMinute
  let s := { s with group := s.group ++ [i], groupStartMinute := start }
  if curMinute - s.groupStartMinute = 4 ∨ (i = times.length - 1 ∧ s.group ≠ []) then
    s.close times prices volumes s.group
  else some s

/-- One minute. -/
def GroupState.minute (s : GroupState F) (i : ℕ) : Option (GroupState F) := do
  let time ← times[i]?
  let s ← s.breakSession times prices volumes i (toMinutes time)
  s.push times prices volumes i (toMinutes time)

/-- Aggregate 1-minute bars into 5-minute klines. -/
def construct5minKlines : Option (List (MinuteKline F)) :=
  if times.length = 0 then some []
  else do
    let first ← times[0]?
    let start : GroupState F := { klines := [], group := [], groupStartMinute := toMinutes first }
    let s ← (List.range times.length).foldlM (GroupState.minute times prices volumes) start
    some s.klines

end FiveMinutes

/-! ## MACD -/

open Float64

section Macd

variable {F : Type} [FixedFloat F]

/-- EMA with an SMA seed. -/
def emaSmaSeed (seq : List F) (n : ℕ) : Option (List F) :=
  if seq.isEmpty then some []
  else
    let k : F := lit 2 / (lit n + lit 1)
    let seed := sumOf (seq.take n) / lit n
    (List.range' n (seq.length - n)).foldlM (fun out i => do
      let value ← seq[i]?
      let previous ← out[i - 1]?
      some (out ++ [value * k + previous * (lit 1 - k)])) (List.replicate (min n seq.length) seed)

/-- MACD(12, 26, 9) with SMA seeds on the closes: DIF, DEA and the bar. -/
def calcMacd (klines : List (MinuteKline F)) : Option (List F × List F × List F) := do
  let closes := klines.map MinuteKline.close
  let ema12 ← emaSmaSeed closes 12
  let ema26 ← emaSmaSeed closes 26
  let dif := List.zipWith (· - ·) ema12 ema26
  let dea ← emaSmaSeed dif 9
  let bar := List.zipWith (fun d s => (d - s) * lit 2) dif dea
  some (dif, dea, bar)

end Macd

/-! ## Merging -/

section Pipeline

/-- A 5-minute kline after containment merging. -/
structure MergedKline (F : Type) where
  timeStart : String
  timeEnd : String
  high : F
  low : F
  direction : ℤ
  rawCount : ℕ
  deriving DecidableEq

/-- A top or bottom fractal on the merged series. -/
structure Fractal (F : Type) where
  index : ℕ
  fractalType : FractalType
  price : F
  time : String
  deriving DecidableEq

/-- A stroke connecting two fractals of opposite type. -/
structure Stroke (F : Type) where
  direction : StrokeDirection
  startPrice : F
  endPrice : F
  startTime : String
  endTime : String
  startIdx : ℕ
  endIdx : ℕ
  macdArea : F
  hasDivergence : Bool
  deriving DecidableEq

variable {F : Type} [FixedFloat F]

/-- The loop of `merge_klines`: the segments pushed so far and the current one. -/
def mergeKline (state : List (MergedKline F) × MergedKline F) (k : MinuteKline F) :
    List (MergedKline F) × MergedKline F :=
  let (merged, cur) := state
  if ¬((k.high ≤ cur.high ∧ cur.low ≤ k.low) ∨ (cur.high ≤ k.high ∧ k.low ≤ cur.low)) then
    (merged ++ [cur], {
      timeStart := k.time
      timeEnd := k.time
      high := k.high
      low := k.low
      direction := if cur.high < k.high then 1 else -1
      rawCount := 1 })
  else
    let (newHigh, newLow) :=
      if cur.direction = 1 then (max k.high cur.high, max k.low cur.low)
      else if cur.direction = -1 then (min k.high cur.high, min k.low cur.low)
      else (max k.high cur.high, min k.low cur.low)
    (merged, {
      timeStart := cur.timeStart
      timeEnd := k.time
      high := newHigh
      low := newLow
      direction := cur.direction
      rawCount := cur.rawCount + 1 })

/-- Merge klines by containment. -/
def mergeKlines : List (MinuteKline F) → List (MergedKline F)
  | [] => []
  | first :: rest =>
    let (merged, cur) := rest.foldl mergeKline ([], {
      timeStart := first.time
      timeEnd := first.time
      high := first.high
      low := first.low
      direction := 0
      rawCount := 1 })
    merged ++ [cur]

/-! ## Fractals and strokes -/

/-- Find top/bottom fractals on the merged series. -/
def findFractals (merged : List (MergedKline F)) : Option (List (Fractal F)) :=
  let found : Option (List (Option (Fractal F))) := (List.range' 1 (merged.length - 1 - 1)).mapM fun i => do
    let left ← merged[i - 1]?
    let cur ← merged[i]?
    let right ← merged[i + 1]?
    some (if left.high < cur.high ∧ right.high < cur.high then
      some { index := i, fractalType := .top, price := cur.high, time := cur.timeEnd }
    else if cur.low < left.low ∧ cur.low < right.low then
      some { index := i, fractalType := .bottom, price := cur.low, time := cur.timeEnd }
    else none)
  found.map List.reduceOption

/-- The variables of the loop of `find_strokes`, `j` apart. -/
structure MinuteStrokeState (F : Type) where
  start : Fractal F
  startPos : ℕ
  direction : StrokeDirection
  stop : Option (Fractal F)
  stopPos : ℕ
  strokes : List (Stroke F)

/-- The stroke from the start to an endpoint. -/
def MinuteStrokeState.stroke (s : MinuteStrokeState F) (e : Fractal F) : Stroke F where
  direction := s.direction
  startPrice := s.start.price
  endPrice := e.price
  startTime := s.start.time
  endTime := e.time
  startIdx := s.startPos
  endIdx := s.stopPos
  macdArea := lit 0
  hasDivergence := false

/-- One round of the loop, and whether it moves on to the next fractal. -/
def MinuteStrokeState.round (s : MinuteStrokeState F) (j : ℕ) (f : Fractal F) :
    MinuteStrokeState F × Bool :=
  if f.fractalType = s.start.fractalType then
    match s.stop with
    | some e => ({
        start := e
        startPos := s.stopPos
        direction := if s.direction = .down then .up else .down
        stop := none
        stopPos := s.stopPos
        strokes := s.strokes ++ [s.stroke e] }, false)
    | none =>
      if (s.direction = .down ∧ s.start.price < f.price) ∨ (s.direction = .up ∧ f.price < s.start.price) then
        ({ s with start := f, startPos := j }, true)
      else (s, true)
  else if 4 ≤ (f.index : ℤ) - s.start.index then ({ s with stop := some f, stopPos := j }, true)
  else (s, true)

/-- The loop of `find_strokes`, for a number of rounds. -/
def minuteStrokeLoop (fractals : List (Fractal F)) :
    ℕ → MinuteStrokeState F → ℕ → Option (List (Stroke F))
  | 0, _, _ => none
  | rounds + 1, s, j =>
    if j < fractals.length then do
      let f ← fractals[j]?
      let (s, advance) := s.round j f
      minuteStrokeLoop fractals rounds s (if advance then j + 1 else j)
    else match s.stop with
      | some e => some (s.strokes ++ [s.stroke e])
      | none => some s.strokes

/-- Build strokes from the fractal sequence. -/
def findStrokes (fractals : List (Fractal F)) : Option (List (Stroke F)) :=
  if fractals.length = 0 then some []
  else do
    let start ← fractals[0]?
    minuteStrokeLoop fractals (2 * fractals.length) {
      start
      startPos := 0
      direction := if start.fractalType = .top then .down else .up
      stop := none
      stopPos := 0
      strokes := [] } 1

/-! ## Divergence -/

/-- `time_to_idx`, looked up: the last occurrence wins. -/
def timeToIdx (klines : List (MinuteKline F)) (time : String) : Option ℕ :=
  klines.zipIdx.foldl (fun found entry => if entry.1.time = time then some entry.2 else found) none

/-- The sum of `|bar|` over the inclusive time range of a stroke. -/
def minuteAreaOf (macdBar : List F) (klines : List (MinuteKline F)) (st : Stroke F) : Option F :=
  match timeToIdx klines st.startTime, timeToIdx klines st.endTime with
  | some si, some ei => do
    let bars ← slice macdBar si ei
    some (sumOf (bars.map FixedFloat.abs))
  | _, _ => some (lit 0)

/-- Whether stroke `i` has a smaller area than the one before of its direction, at a new extreme. -/
def minuteDivergesAt (strokes : List (Stroke F)) (areas : List F) (i : ℕ) : Option Bool := do
  let st ← strokes[i]?
  let found ← (List.range i).reverse.findM? fun j => do
    let s ← strokes[j]?
    some (s.direction = st.direction)
  match found with
  | none => some false
  | some p => do
    let prev ← strokes[p]?
    let area ← areas[i]?
    let prevArea ← areas[p]?
    let newExtreme : Bool :=
      if st.direction = .down then st.endPrice < prev.endPrice else prev.endPrice < st.endPrice
    some (area < prevArea && newExtreme)

/-- Compute each stroke's MACD area and flag divergence. -/
def detectDivergence (strokes : List (Stroke F)) (macdBar : List F) (klines : List (MinuteKline F)) :
    Option (List (Stroke F)) := do
  let areas ← strokes.mapM (minuteAreaOf macdBar klines)
  let flags ← (List.range strokes.length).mapM (minuteDivergesAt strokes areas)
  strokes.zipIdx.mapM fun (st, i) => do
    let area ← areas[i]?
    let flag ← flags[i]?
    some { st with macdArea := area, hasDivergence := flag }

end Pipeline

end Astock.Chan
