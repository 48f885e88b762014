import Astock.Spec.Chan
import Astock.Lib.Checked
import Astock.Lib.Float64
import Mathlib.Data.List.ReduceOption

/-!
# The daily Chan analysis

`analyze_chanlun_daily` of `crates/chanlun/src/daily.rs` with every index and slice it takes: a value
is missing where the source panics or does not return. The loops go over the slices of dates, closes,
highs and lows by their indices; what they do with what they read is in `Spec/Chan.lean`.

The payloads for the chart, which map over the lists of the result, are left out.
-/

namespace Astock.Chan

open Float64 Checked

variable {F : Type} [FixedFloat F]

/-- A stroke with its MACD area over its dates. -/
structure MeasuredStroke (F : Type) extends DailyStroke F where
  macdArea : F
  hasDivergence : Bool
  deriving DecidableEq

/-- An overlapping consolidation zone of adjacent strokes. -/
structure Zhongshu (F : Type) where
  startDate : String
  endDate : String
  zg : F
  zd : F
  zz : F
  strokeStartIdx : ℕ
  strokeEndIdx : ℕ
  isBroken : Bool
  /-- Nothing is the empty string of the source. -/
  breakDirection : Option StrokeDirection
  deriving DecidableEq

inductive SignalType
  | buy1
  | buy2
  | buy3
  | sell1
  | sell2
  | sell3
  deriving DecidableEq, Repr

/-- A buy/sell signal. -/
structure ChanlunDailySignal (F : Type) where
  signalType : SignalType
  price : F
  date : String
  description : String
  confidence : ℤ
  deriving DecidableEq

structure ChanlunDailyResult (F : Type) where
  klineCount : ℕ
  mergedCount : ℕ
  fractalCount : ℕ
  strokeCount : ℕ
  zhongshuCount : ℕ
  fractals : List (DailyFractal F)
  strokes : List (MeasuredStroke F)
  zhongshus : List (Zhongshu F)
  signals : List (ChanlunDailySignal F)
  macdDif : List F
  macdDea : List F
  macdBar : List F
  currentState : String
  summary : String
  description : String
  deriving DecidableEq

/-! ## MACD -/

def sumOf (values : List F) : F := values.foldl (· + ·) (lit 0)

/-- An EMA that is held at the mean of its window before the index of the window. -/
def heldEma (window : ℕ) (k : F) (values : List F) : Option (List F) :=
  let seed := sumOf (values.take window) / lit window
  (List.range' window (values.length - window)).foldlM (fun ema i => do
    let previous ← ema[i - 1]?
    let value ← values[i]?
    store ema i (previous + (value - previous) * k)) (List.replicate values.length seed)

/-- A series made of two others, index by index. -/
def indexwise (n : ℕ) (f : F → F → F) (xs ys : List F) : Option (List F) :=
  (List.range n).mapM fun i => do
    let x ← xs[i]?
    let y ← ys[i]?
    some (f x y)

/-- MACD(12, 26, 9): DIF, DEA and the bar. -/
def calcDailyMacd (closes : List F) : Option (List F × List F × List F) :=
  if closes.length = 0 then some ([], [], [])
  else do
    let ema12 ← heldEma 12 (lit 2 / lit 13) closes
    let ema26 ← heldEma 26 (lit 2 / lit 27) closes
    let dif ← indexwise closes.length (· - ·) ema12 ema26
    let dea ← heldEma 9 (lit 2 / lit 10) dif
    let bar ← indexwise closes.length (fun d e => (d - e) * lit 2) dif dea
    some (dif, dea, bar)

/-! ## Klines, fractals and strokes by index -/

/-- What the slices hold at an index. -/
def barAt (dates : List String) (highs lows : List F) (i : ℕ) : Option (Bar F) := do
  let date ← dates[i]?
  let high ← highs[i]?
  let low ← lows[i]?
  some { date, high, low }

/-- One kline: the segments pushed so far and the current one. -/
def mergeStep (state : List (MergedDailyKline F) × MergedDailyKline F) (bar : Bar F) :
    List (MergedDailyKline F) × MergedDailyKline F :=
  if state.2.contains bar then (state.1, state.2.absorb bar)
  else (state.1 ++ [state.2], openSegment bar (directionOf state.2 bar))

/-- Merge raw klines by containment. -/
def mergeByIndex (dates : List String) (highs lows : List F) : Option (List (MergedDailyKline F)) :=
  if dates.isEmpty then some []
  else do
    let first ← barAt dates highs lows 0
    let (merged, cur) ← (List.range' 1 (dates.length - 1)).foldlM
      (fun state i => (barAt dates highs lows i).map (mergeStep state)) ([], openSegment first 0)
    some (merged ++ [cur])

/-- Find top/bottom fractals. -/
def fractalsByIndex (merged : List (MergedDailyKline F)) : Option (List (DailyFractal F)) :=
  let found := (List.range' 1 (merged.length - 1 - 1)).mapM fun i => do
    let left ← merged[i - 1]?
    let cur ← merged[i]?
    let right ← merged[i + 1]?
    some (fractalAt i left cur right)
  found.map List.reduceOption

/-- The loop of `find_daily_strokes`, for a number of rounds. The fractal that closes a stroke is
looked at in the next round again. -/
def strokeLoop (fractals : List (DailyFractal F)) :
    ℕ → StrokeState F → ℕ → List (DailyStroke F) → Option (List (DailyStroke F))
  | 0, _, _, _ => none
  | rounds + 1, s, j, strokes =>
    if j < fractals.length then do
      let f ← fractals[j]?
      match s.closedBy f with
      | some stop => strokeLoop fractals rounds (s.turn stop) j (strokes ++ [s.stroke stop])
      | none => strokeLoop fractals rounds (s.visit j f) (j + 1) strokes
    else some (strokes ++ s.stop.toList.map s.stroke)

/-- Build strokes from the fractal sequence. -/
def strokesByIndex (fractals : List (DailyFractal F)) : Option (List (DailyStroke F)) :=
  if fractals.length = 0 then some []
  else do
    let start ← fractals[0]?
    strokeLoop fractals (2 * fractals.length)
      { start, startPos := 0, direction := start.fractalType.direction } 1 []

/-! ## Zhongshus -/

/-- Bounds of the overlap of two strokes. -/
def overlap (a b : DailyStroke F) : F × F :=
  (max (min a.startPrice a.endPrice) (min b.startPrice b.endPrice),
    min (max a.startPrice a.endPrice) (max b.startPrice b.endPrice))

/-- The zone of strokes `i` and `i + 1`. -/
def zhongshuOf (i : ℕ) (a b : DailyStroke F) : Zhongshu F where
  startDate := a.startDate
  endDate := b.endDate
  zg := (overlap a b).2
  zd := (overlap a b).1
  zz := ((overlap a b).2 + (overlap a b).1) / lit 2
  strokeStartIdx := i
  strokeEndIdx := i + 1
  isBroken := false
  breakDirection := none

/-- The loop over pairs of strokes, for a number of rounds. -/
def zhongshuLoop (strokes : List (DailyStroke F)) : ℕ → ℕ → Option (List (Zhongshu F))
  | 0, _ => none
  | rounds + 1, i =>
    if i + 2 < strokes.length then do
      let a ← strokes[i]?
      let b ← strokes[i + 1]?
      if (overlap a b).1 < (overlap a b).2 then
        (zhongshuLoop strokes rounds (i + 2)).map (zhongshuOf i a b :: ·)
      else zhongshuLoop strokes rounds (i + 1)
    else some []

/-- A stroke that leaves the zone. -/
def Zhongshu.broken (z : Zhongshu F) (direction : StrokeDirection) (s : DailyStroke F) : Zhongshu F :=
  { z with isBroken := true, breakDirection := some direction, endDate := s.startDate }

/-- The first of the later strokes that leaves the zone breaks it. -/
def Zhongshu.breakBy (z : Zhongshu F) : List (DailyStroke F) → Zhongshu F
  | [] => z
  | s :: rest =>
    if s.direction = .up ∧ z.zg < s.endPrice then z.broken .up s
    else if s.direction = .down ∧ s.endPrice < z.zd then z.broken .down s
    else z.breakBy rest

def findZhongshus (strokes : List (DailyStroke F)) : Option (List (Zhongshu F)) := do
  let zhongshus ← zhongshuLoop strokes (strokes.length + 1) 0
  zhongshus.mapM fun z => do
    let later ← sliceFrom strokes (z.strokeEndIdx + 1)
    some (z.breakBy later)

/-! ## Divergence -/

/-- `date_to_idx`, looked up: the last occurrence wins. -/
def dateToIdx (dates : List String) (date : String) : Option ℕ :=
  dates.zipIdx.foldl (fun found entry => if entry.1 = date then some entry.2 else found) none

/-- Sum of absolute MACD bars over the stroke's inclusive date range. -/
def areaOf (macdBar : List F) (dates : List String) (st : DailyStroke F) : Option F :=
  match dateToIdx dates st.startDate, dateToIdx dates st.endDate with
  | some si, some ei => do
    let bars ← slice macdBar si ei
    some (sumOf (bars.map FixedFloat.abs))
  | _, _ => some (lit 0)

/-- The nearest stroke of a direction before an index. -/
def previousOf (strokes : List (DailyStroke F)) (i : ℕ) (direction : StrokeDirection) :
    Option (Option ℕ) :=
  (List.range i).reverse.findM? fun j => do
    let s ← strokes[j]?
    some (s.direction = direction)

/-- A smaller area than the previous stroke of the direction, at a new price extreme. -/
def divergesAt (strokes : List (DailyStroke F)) (areas : List F) (i : ℕ) : Option Bool := do
  let st ← strokes[i]?
  match ← previousOf strokes i st.direction with
  | none => some false
  | some p => do
    let prev ← strokes[p]?
    let area ← areas[i]?
    let prevArea ← areas[p]?
    let newExtreme : Bool :=
      if st.direction = .down then st.endPrice < prev.endPrice else prev.endPrice < st.endPrice
    some (area < prevArea && newExtreme)

/-- Compute each stroke's MACD area and flag divergence. -/
def detectDailyDivergence (strokes : List (DailyStroke F)) (macdBar : List F) (dates : List String) :
    Option (List (MeasuredStroke F)) := do
  let areas ← strokes.mapM (areaOf macdBar dates)
  let flags ← (List.range strokes.length).mapM (divergesAt strokes areas)
  strokes.zipIdx.mapM fun (st, i) => do
    let area ← areas[i]?
    let flag ← flags[i]?
    some { toDailyStroke := st, macdArea := area, hasDivergence := flag }

/-! ## Signals -/

/-- `clamp(round(94.5 - 35 * area_ratio), 55, 92)`. -/
def divergenceConfidence (strokes : List (MeasuredStroke F)) (idx : ℕ) (direction : StrokeDirection) :
    Option ℤ := do
  let st ← strokes[idx]?
  match ← previousOf (strokes.map MeasuredStroke.toDailyStroke) idx direction with
  | none => some 55
  | some p => do
    let prev ← strokes[p]?
    if lit 0 < prev.macdArea then
      let ratio := st.macdArea / prev.macdArea
      some (max 55 (min (FixedFloat.roundTiesEven (lit (189 / 2) - lit 35 * ratio)) 92))
    else some 55

/-- The signal at the end of a divergent stroke. -/
def type1At (strokes : List (MeasuredStroke F)) (st : MeasuredStroke F) (i : ℕ) :
    Option (Option (ChanlunDailySignal F)) :=
  let area := FixedFloat.fixed 1 st.macdArea
  if st.hasDivergence = false then some none
  else if st.direction = .down then do
    let confidence ← divergenceConfidence strokes i .down
    some (some {
      signalType := .buy1
      price := st.endPrice
      date := st.endDate
      description := s!"一类买点：日线底背驰，MACD面积{area}较前笔衰减，空头力度衰竭"
      confidence := confidence })
  else do
    let confidence ← divergenceConfidence strokes i .up
    some (some {
      signalType := .sell1
      price := st.endPrice
      date := st.endDate
      description := s!"一类卖点：日线顶背驰，MACD面积{area}较前笔衰减，多头力度衰竭"
      confidence := confidence })

/-- The pullback after a divergent stroke that holds the prior extreme. -/
def type2At (strokes : List (MeasuredStroke F)) (st : MeasuredStroke F) (i : ℕ) :
    Option (Option (ChanlunDailySignal F)) :=
  if st.hasDivergence = false then some none
  else if i + 2 < strokes.length then do
    let nxt ← strokes[i + 2]?
    let held := FixedFloat.fixed 2 st.endPrice
    if st.direction = .down ∧ nxt.direction = .down ∧ st.endPrice < nxt.endPrice then
      some (some {
        signalType := .buy2
        price := nxt.endPrice
        date := nxt.endDate
        description := s!"二类买点：一类买点后反弹再回落，未破前低{held}"
        confidence := 70 })
    else if st.direction = .up ∧ nxt.direction = .up ∧ nxt.endPrice < st.endPrice then
      some (some {
        signalType := .sell2
        price := nxt.endPrice
        date := nxt.endDate
        description := s!"二类卖点：一类卖点后回落再反弹，未破前高{held}"
        confidence := 70 })
    else some none
  else some none

/-- The retracement that stays outside a broken zone. -/
def type3Of (strokes : List (MeasuredStroke F)) (z : Zhongshu F) :
    Option (Option (ChanlunDailySignal F)) :=
  if z.isBroken = false then some none
  else if strokes.length ≤ z.strokeEndIdx + 2 then some none
  else do
    let retro ← strokes[z.strokeEndIdx + 2]?
    let zd := FixedFloat.fixed 2 z.zd
    let zg := FixedFloat.fixed 2 z.zg
    if z.breakDirection = some .up then
      if retro.direction = .down ∧ z.zg < retro.endPrice then
        some (some {
          signalType := .buy3
          price := retro.endPrice
          date := retro.endDate
          description := s!"三类买点：中枢[{zd}-{zg}]向上突破后回踩，未回到中枢内"
          confidence := 75 })
      else some none
    else if retro.direction = .up ∧ retro.endPrice < z.zd then
      some (some {
        signalType := .sell3
        price := retro.endPrice
        date := retro.endDate
        description := s!"三类卖点：中枢[{zd}-{zg}]向下突破后反弹，未回到中枢内"
        confidence := 75 })
    else some none

omit [FixedFloat F] in
/-- The signals of a type, by date. -/
def byDate (signals : List (ChanlunDailySignal F)) (types : List SignalType) :
    List (ChanlunDailySignal F) :=
  (signals.filter (·.signalType ∈ types)).insertionSort fun a b => a.date ≤ b.date

/-- Generate buy/sell signals. -/
def generateDailySignals (strokes : List (MeasuredStroke F)) (zhongshus : List (Zhongshu F)) :
    Option (List (ChanlunDailySignal F)) := do
  let type1 ← strokes.zipIdx.mapM fun (st, i) => type1At strokes st i
  let type2 ← strokes.zipIdx.mapM fun (st, i) => type2At strokes st i
  let type3 ← zhongshus.mapM (type3Of strokes)
  some (byDate type1.reduceOption [.buy1, .sell1] ++ byDate type2.reduceOption [.buy2] ++
    byDate type2.reduceOption [.sell2] ++ byDate type3.reduceOption [.sell3] ++
    byDate type3.reduceOption [.buy3])

/-! ## The result -/

/-- Chinese display name of a signal type. -/
def SignalType.name : SignalType → String
  | buy1 => "一类买点"
  | buy2 => "二类买点"
  | buy3 => "三类买点"
  | sell1 => "一类卖点"
  | sell2 => "二类卖点"
  | sell3 => "三类卖点"

/-- What the last zone is doing. -/
def zoneText : Option (Zhongshu F) → String
  | some z =>
    if z.isBroken then
      if z.breakDirection = some .up then "已向上突破" else "已向下突破"
    else
      let zd := FixedFloat.fixed 2 z.zd
      let zg := FixedFloat.fixed 2 z.zg
      s!"[{zd}-{zg}]震荡中"
  | none => "无中枢"

/-- State, summary and description. -/
def describeState (strokes : List (MeasuredStroke F)) (zhongshus : List (Zhongshu F))
    (signals : List (ChanlunDailySignal F)) (fractalCount : ℕ) : String × String × String :=
  let isUp := strokes.getLast?.any (·.direction = .up)
  let direction := if isUp then "向上" else "向下"
  let trend := if isUp then "多头" else "空头"
  let zone := zoneText zhongshus.getLast?
  let state := s!"处于{direction}笔中，{trend}延续，最近中枢{zone}"
  let (state, summary) :=
    match signals.getLast? with
    | some latest =>
      let name := latest.signalType.name
      let price := FixedFloat.fixed 2 latest.price
      let date := latest.date
      (s!"{state}，最新信号：{name}@{price}", s!"最新信号：{name}@{price}({date})")
    | none => (s!"{state}，无信号", "无信号")
  let strokeCount := strokes.length
  let zhongshuCount := zhongshus.length
  let signalCount := signals.length
  (state, summary,
    s!"共{fractalCount}个分型、{strokeCount}笔、{zhongshuCount}个中枢、{signalCount}个信号。{state}")

/-- Run the full daily Chan theory pipeline. Opens and volumes are not used. -/
def analyzeChanlunDaily (dates : List String) (_opens closes highs lows _volumes : List F) :
    Option (ChanlunDailyResult F) := do
  let merged ← mergeByIndex dates highs lows
  let fractals ← fractalsByIndex merged
  let unmeasured ← strokesByIndex fractals
  let zhongshus ← findZhongshus unmeasured
  let (dif, dea, bar) ← calcDailyMacd closes
  let strokes ← detectDailyDivergence unmeasured bar dates
  let signals ← generateDailySignals strokes zhongshus
  let (state, summary, description) := describeState strokes zhongshus signals fractals.length
  some {
    klineCount := dates.length
    mergedCount := merged.length
    fractalCount := fractals.length
    strokeCount := strokes.length
    zhongshuCount := zhongshus.length
    fractals := fractals
    strokes := strokes
    zhongshus := zhongshus
    signals := signals
    macdDif := dif
    macdDea := dea
    macdBar := bar
    currentState := state
    summary := summary
    description := description }

end Astock.Chan
