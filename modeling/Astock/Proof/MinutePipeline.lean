import Astock.Proof.DailyAnalysis
import Astock.Spec.MinuteChan

/-!
# The minute pipeline is the daily one

Times are read as dates.

* `mergeKlines_daily`, `findFractals_daily`, `findStrokes_daily`, `detectDivergence_daily`: **each stage
  makes of its input what the daily stage does**, whatever the numbers are.
* `emaSmaSeed_held`, `calcMacd_daily`: the two forms of the recurrence agree in exact arithmetic.
* `minute_is_daily`: **the whole pipelines agree**, and no slice is out of range.
-/

namespace Astock.Chan

open Float64 Checked

variable {F : Type} [FixedFloat F]

/-- A traversal whose values are translated. -/
theorem mapM_translated {α β γ : Type} {f : α → Option β} {f' : α → Option γ} {g : β → γ} (l : List α)
    (h : ∀ a ∈ l, f' a = (f a).map g) : l.mapM f' = (l.mapM f).map (List.map g) := by
  induction l with
  | nil => rfl
  | cons a l ih =>
    obtain ⟨ha, hrest⟩ := List.forall_mem_cons.1 h
    rw [List.mapM_cons, List.mapM_cons, ha, ih hrest]
    cases f a with
    | none => rfl
    | some b =>
      cases l.mapM f with
      | none => rfl
      | some bs => rfl

/-! ## Reading times as dates -/

def MinuteKline.toBar (k : MinuteKline F) : Bar F where
  date := k.time
  high := k.high
  low := k.low

def MergedKline.toDaily (k : MergedKline F) : MergedDailyKline F where
  dateStart := k.timeStart
  dateEnd := k.timeEnd
  high := k.high
  low := k.low
  direction := k.direction
  rawCount := k.rawCount

def Fractal.toDaily (f : Fractal F) : DailyFractal F where
  index := f.index
  fractalType := f.fractalType
  price := f.price
  date := f.time

def Stroke.toDaily (st : Stroke F) : DailyStroke F where
  direction := st.direction
  startPrice := st.startPrice
  endPrice := st.endPrice
  startDate := st.startTime
  endDate := st.endTime
  startIdx := st.startIdx
  endIdx := st.endIdx

/-- A stroke with its area and its flag. -/
def Stroke.toMeasured (st : Stroke F) : MeasuredStroke F where
  toDailyStroke := st.toDaily
  macdArea := st.macdArea
  hasDivergence := st.hasDivergence

/-! ## Merging -/

theorem mergeKline_daily (merged : List (MergedKline F)) (cur : MergedKline F) (k : MinuteKline F) :
    mergeStep (merged.map MergedKline.toDaily, cur.toDaily) k.toBar =
      ((mergeKline (merged, cur) k).1.map MergedKline.toDaily, (mergeKline (merged, cur) k).2.toDaily) := by
  by_cases hin : cur.toDaily.contains k.toBar
  · have hin' : ¬¬((k.high ≤ cur.high ∧ cur.low ≤ k.low) ∨ (cur.high ≤ k.high ∧ k.low ≤ cur.low)) :=
      not_not.2 hin
    rw [mergeStep, if_pos hin, mergeKline]
    simp only [if_neg hin']
    congr 1
    by_cases hup : cur.direction = 1
    · have hdown : ¬cur.direction = -1 := by omega
      simp [MergedDailyKline.absorb, MergedKline.toDaily, MinuteKline.toBar, hup]
    · by_cases hdown : cur.direction = -1
      · simp [MergedDailyKline.absorb, MergedKline.toDaily, MinuteKline.toBar, hdown]
      · simp [MergedDailyKline.absorb, MergedKline.toDaily, MinuteKline.toBar, hup, hdown]
  · have hin' : ¬((k.high ≤ cur.high ∧ cur.low ≤ k.low) ∨ (cur.high ≤ k.high ∧ k.low ≤ cur.low)) := hin
    rw [mergeStep, if_neg hin, mergeKline]
    simp only [if_pos hin', List.map_append, List.map_cons, List.map_nil]
    rfl

theorem foldl_mergeKline (klines : List (MinuteKline F)) : ∀ (merged : List (MergedKline F))
    (cur : MergedKline F), (klines.map MinuteKline.toBar).foldl mergeStep
      (merged.map MergedKline.toDaily, cur.toDaily) =
        ((klines.foldl mergeKline (merged, cur)).1.map MergedKline.toDaily,
          (klines.foldl mergeKline (merged, cur)).2.toDaily) := by
  induction klines with
  | nil => exact fun merged cur => rfl
  | cons k klines ih =>
    intro merged cur
    rw [List.map_cons, List.foldl_cons, mergeKline_daily, ih]
    rfl

theorem mergeKlines_daily (klines : List (MinuteKline F)) :
    mergeByIndex (klines.map MinuteKline.time) (klines.map MinuteKline.high)
      (klines.map MinuteKline.low) = some ((mergeKlines klines).map MergedKline.toDaily) := by
  have hcolumns : ∀ {β : Type} (f : Bar F → β), klines.map (fun k => f k.toBar) =
      (klines.map MinuteKline.toBar).map f := fun f => (List.map_map ..).symm
  have hindex := mergeByIndex_eq (klines.map MinuteKline.toBar)
  rw [← hcolumns, ← hcolumns, ← hcolumns] at hindex
  refine hindex.trans (congrArg some ?_)
  cases klines with
  | nil => rfl
  | cons first klines =>
    obtain ⟨state, hfold, hstate⟩ := foldlM_mergeStep (klines.map MinuteKline.toBar) []
      (openSegment first.toBar 0)
    have hpure : some ((klines.map MinuteKline.toBar).foldl mergeStep ([], openSegment first.toBar 0)) =
        some state := by
      rw [← hfold]
      exact (List.foldlM_pure (m := Option) ..).symm
    obtain rfl := Option.some.inj hpure
    have hdaily := foldl_mergeKline klines [] {
      timeStart := first.time
      timeEnd := first.time
      high := first.high
      low := first.low
      direction := 0
      rawCount := 1 }
    rw [List.nil_append] at hstate
    rw [List.map_cons, mergeDailyKlines, ← hstate, mergeKlines, List.map_append]
    exact congrArg (fun state : List (MergedDailyKline F) × MergedDailyKline F => state.1 ++ [state.2]) hdaily

/-! ## Fractals and strokes -/

theorem findFractals_daily (merged : List (MergedKline F)) :
    fractalsByIndex (merged.map MergedKline.toDaily) =
      (findFractals merged).map (List.map Fractal.toDaily) := by
  have hat : ∀ i, (do
      let left ← (merged.map MergedKline.toDaily)[i - 1]?
      let cur ← (merged.map MergedKline.toDaily)[i]?
      let right ← (merged.map MergedKline.toDaily)[i + 1]?
      some (fractalAt i left cur right)) = (do
      let left ← merged[i - 1]?
      let cur ← merged[i]?
      let right ← merged[i + 1]?
      some (if left.high < cur.high ∧ right.high < cur.high then
        some { index := i, fractalType := .top, price := cur.high, time := cur.timeEnd : Fractal F }
      else if cur.low < left.low ∧ cur.low < right.low then
        some { index := i, fractalType := .bottom, price := cur.low, time := cur.timeEnd }
      else none) : Option (Option (Fractal F))).map (Option.map Fractal.toDaily) := by
    intro i
    rw [List.getElem?_map, List.getElem?_map, List.getElem?_map]
    cases merged[i - 1]? with
    | none => rfl
    | some left =>
      cases merged[i]? with
      | none => rfl
      | some cur =>
        cases merged[i + 1]? with
        | none => rfl
        | some right =>
          simp only [Option.map_some, Option.bind_eq_bind, Option.bind_some, fractalAt,
            MergedKline.toDaily]
          split_ifs <;> rfl
  have hrange : (merged.map MergedKline.toDaily).length - 1 - 1 = merged.length - 1 - 1 := by
    rw [List.length_map]
  rw [fractalsByIndex, findFractals, hrange]
  rw [mapM_translated (List.range' 1 (merged.length - 1 - 1)) fun i _ => hat i, Option.map_map, Option.map_map]
  congr 1
  funext found
  exact List.reduceOption_map

/-- The variables of the loop, with dates. -/
def MinuteStrokeState.toDaily (s : MinuteStrokeState F) : StrokeState F where
  start := s.start.toDaily
  startPos := s.startPos
  direction := s.direction
  stop := s.stop.map fun e => (e.toDaily, s.stopPos)

/-- A round that closes a stroke. -/
theorem round_closes {s : MinuteStrokeState F} (j : ℕ) {f e : Fractal F}
    (htype : f.fractalType = s.start.fractalType) (hstop : s.stop = some e) :
    (s.round j f).2 = false ∧ (s.round j f).1.strokes = s.strokes ++ [s.stroke e] ∧
      (s.round j f).1.toDaily = s.toDaily.turn (e.toDaily, s.stopPos) := by
  rw [MinuteStrokeState.round, if_pos htype]
  simp only [hstop]
  refine ⟨trivial, trivial, ?_⟩
  cases hd : s.direction <;> simp [MinuteStrokeState.toDaily, StrokeState.turn, StrokeDirection.flip, hd]

/-- A round that moves on. -/
theorem round_visits {s : MinuteStrokeState F} (j : ℕ) {f : Fractal F}
    (hopen : f.fractalType ≠ s.start.fractalType ∨ s.stop = none) :
    (s.round j f).2 = true ∧ (s.round j f).1.strokes = s.strokes ∧
      (s.round j f).1.toDaily = s.toDaily.visit j f.toDaily := by
  rw [MinuteStrokeState.round, StrokeState.visit]
  by_cases htype : f.fractalType = s.start.fractalType
  · have hstop := hopen.resolve_left (not_not.2 htype)
    have htype' : f.toDaily.fractalType = s.toDaily.start.fractalType := htype
    rw [if_pos htype, if_pos htype']
    simp only [hstop]
    by_cases hmove : (s.direction = .down ∧ s.start.price < f.price) ∨
        (s.direction = .up ∧ f.price < s.start.price)
    · have hmove' : (s.toDaily.direction = .down ∧ s.toDaily.start.price < f.toDaily.price) ∨
          (s.toDaily.direction = .up ∧ f.toDaily.price < s.toDaily.start.price) := hmove
      rw [if_pos hmove, if_pos hmove']
      simp [MinuteStrokeState.toDaily, hstop]
    · have hmove' : ¬((s.toDaily.direction = .down ∧ s.toDaily.start.price < f.toDaily.price) ∨
          (s.toDaily.direction = .up ∧ f.toDaily.price < s.toDaily.start.price)) := hmove
      rw [if_neg hmove, if_neg hmove']
      simp
  · have htype' : ¬f.toDaily.fractalType = s.toDaily.start.fractalType := htype
    rw [if_neg htype, if_neg htype']
    by_cases hgap : 4 ≤ (f.index : ℤ) - s.start.index
    · have hgap' : s.toDaily.start.index + 4 ≤ f.toDaily.index := by
        show s.start.index + 4 ≤ f.index
        omega
      rw [if_pos hgap, if_pos hgap']
      simp [MinuteStrokeState.toDaily]
    · have hgap' : ¬s.toDaily.start.index + 4 ≤ f.toDaily.index := by
        show ¬s.start.index + 4 ≤ f.index
        omega
      rw [if_neg hgap, if_neg hgap']
      simp

theorem minuteStrokeLoop_daily (fractals : List (Fractal F)) : ∀ (rounds j : ℕ) (s : MinuteStrokeState F),
    strokeLoop (fractals.map Fractal.toDaily) rounds s.toDaily j (s.strokes.map Stroke.toDaily) =
      (minuteStrokeLoop fractals rounds s j).map (List.map Stroke.toDaily) := by
  intro rounds
  induction rounds with
  | zero => exact fun j s => rfl
  | succ rounds ih =>
    intro j s
    rw [strokeLoop, minuteStrokeLoop, List.length_map]
    by_cases hj : j < fractals.length
    · rw [if_pos hj, if_pos hj, List.getElem?_map]
      obtain ⟨f, hf⟩ := getElem?_defined hj
      rw [hf]
      simp only [Option.map_some, Option.bind_eq_bind, Option.bind_some]
      by_cases hclose : f.fractalType = s.start.fractalType ∧ s.stop ≠ none
      · obtain ⟨htype, hstop⟩ := hclose
        obtain ⟨e, hstop⟩ := Option.ne_none_iff_exists'.1 hstop
        obtain ⟨hstay, hstrokes, hturn⟩ := round_closes j htype hstop
        have hclosed : s.toDaily.closedBy f.toDaily = some (e.toDaily, s.stopPos) := by
          have htype' : f.toDaily.fractalType = s.toDaily.start.fractalType := htype
          rw [StrokeState.closedBy, if_pos htype', MinuteStrokeState.toDaily, hstop]
          rfl
        rw [hclosed, hstay]
        simp only [Bool.false_eq_true, if_false]
        rw [← hturn, ← ih, hstrokes, List.map_append]
        rfl
      · have hopen : f.fractalType ≠ s.start.fractalType ∨ s.stop = none := by
          by_cases htype : f.fractalType = s.start.fractalType
          · exact .inr (not_not.1 fun hstop => hclose ⟨htype, hstop⟩)
          · exact .inl htype
        obtain ⟨hmove, hstrokes, hvisit⟩ := round_visits j hopen
        have hclosed : s.toDaily.closedBy f.toDaily = none := by
          rw [StrokeState.closedBy]
          rcases hopen with htype | hstop
          · have htype' : ¬f.toDaily.fractalType = s.toDaily.start.fractalType := htype
            rw [if_neg htype']
          · rw [MinuteStrokeState.toDaily, hstop]
            exact ite_self none
        rw [hclosed, hmove]
        simp only [if_true]
        rw [← hvisit, ← ih, hstrokes]
    · rw [if_neg hj, if_neg hj]
      cases hstop : s.stop with
      | none => simp [MinuteStrokeState.toDaily, hstop]
      | some e =>
        simp [MinuteStrokeState.toDaily, hstop, MinuteStrokeState.stroke, StrokeState.stroke, Stroke.toDaily,
          Fractal.toDaily]

theorem findStrokes_daily (fractals : List (Fractal F)) :
    strokesByIndex (fractals.map Fractal.toDaily) = (findStrokes fractals).map (List.map Stroke.toDaily) := by
  rw [strokesByIndex, findStrokes, List.length_map]
  by_cases hempty : fractals.length = 0
  · rw [if_pos hempty, if_pos hempty]
    rfl
  · rw [if_neg hempty, if_neg hempty, List.getElem?_map]
    obtain ⟨start, hstart⟩ := getElem?_defined (Nat.pos_of_ne_zero hempty)
    rw [hstart]
    have hloop := minuteStrokeLoop_daily fractals (2 * fractals.length) 1 {
      start
      startPos := 0
      direction := if start.fractalType = .top then .down else .up
      stop := none
      stopPos := 0
      strokes := [] }
    have hdirection : start.toDaily.fractalType.direction =
        if start.fractalType = .top then .down else .up := by
      show start.fractalType.direction = _
      cases start.fractalType <;> rfl
    simp only [Option.map_some, Option.bind_eq_bind, Option.bind_some, hdirection]
    exact hloop

/-! ## Divergence -/

omit [FixedFloat F] in
theorem timeToIdx_daily (klines : List (MinuteKline F)) (time : String) :
    dateToIdx (klines.map MinuteKline.time) time = timeToIdx klines time := by
  rw [dateToIdx, timeToIdx, List.zipIdx_map, List.foldl_map]
  rfl

theorem minuteAreaOf_daily (macdBar : List F) (klines : List (MinuteKline F)) (st : Stroke F) :
    areaOf macdBar (klines.map MinuteKline.time) st.toDaily = minuteAreaOf macdBar klines st := by
  rw [areaOf, minuteAreaOf, timeToIdx_daily, timeToIdx_daily]
  rfl

theorem minuteDivergesAt_daily (strokes : List (Stroke F)) (areas : List F) (i : ℕ) :
    divergesAt (strokes.map Stroke.toDaily) areas i = minuteDivergesAt strokes areas i := by
  rw [divergesAt, minuteDivergesAt, List.getElem?_map]
  cases strokes[i]? with
  | none => rfl
  | some st =>
    have hprevious : previousOf (strokes.map Stroke.toDaily) i st.toDaily.direction =
        ((List.range i).reverse.findM? fun j => do
          let s ← strokes[j]?
          some (decide (s.direction = st.direction))) := by
      rw [previousOf]
      congr 1
      funext j
      rw [List.getElem?_map]
      cases strokes[j]? <;> rfl
    simp only [Option.map_some, Option.bind_eq_bind, Option.bind_some, hprevious]
    congr 1
    funext found
    cases found with
    | none => rfl
    | some p =>
      simp only [List.getElem?_map]
      cases strokes[p]? <;> rfl

theorem detectDivergence_daily (strokes : List (Stroke F)) (macdBar : List F)
    (klines : List (MinuteKline F)) :
    detectDailyDivergence (strokes.map Stroke.toDaily) macdBar (klines.map MinuteKline.time) =
      (detectDivergence strokes macdBar klines).map (List.map Stroke.toMeasured) := by
  have hareas : (strokes.map Stroke.toDaily).mapM (areaOf macdBar (klines.map MinuteKline.time)) =
      strokes.mapM (minuteAreaOf macdBar klines) := by
    rw [List.mapM_map]
    congr 1
    funext st
    exact minuteAreaOf_daily macdBar klines st
  rw [detectDailyDivergence, detectDivergence, hareas, List.length_map]
  cases strokes.mapM (minuteAreaOf macdBar klines) with
  | none => rfl
  | some areas =>
    have hflags : divergesAt (strokes.map Stroke.toDaily) areas = minuteDivergesAt strokes areas :=
      funext (minuteDivergesAt_daily strokes areas)
    simp only [Option.bind_eq_bind, Option.bind_some, hflags]
    cases (List.range strokes.length).mapM (minuteDivergesAt strokes areas) with
    | none => rfl
    | some flags =>
      rw [Option.bind_some, Option.bind_some, List.zipIdx_map, List.mapM_map]
      refine mapM_translated strokes.zipIdx fun entry _ => ?_
      obtain ⟨st, i⟩ := entry
      show ((areas[i]?).bind fun area => (flags[i]?).bind fun flag => some _) =
        Option.map Stroke.toMeasured ((areas[i]?).bind fun area => (flags[i]?).bind fun flag => some _)
      cases areas[i]? with
      | none => rfl
      | some area => cases flags[i]? <;> rfl

/-! ## MACD in exact arithmetic -/

/-- **The two recurrences agree**: one appends to a list, the other overwrites the seed. -/
theorem ema_steps (values : List ℚ) {n : ℕ} (hn : 0 < n) (k seed : ℚ) : ∀ m, n + m ≤ values.length →
    ∃ out, (List.range' n m).foldlM (fun out i => do
        let value ← values[i]?
        let previous ← out[i - 1]?
        some (out ++ [value * k + previous * (1 - k)])) (List.replicate n seed) = some out ∧
      (List.range' n m).foldlM (fun ema i => do
        let previous ← ema[i - 1]?
        let value ← values[i]?
        store ema i (previous + (value - previous) * k)) (List.replicate values.length seed) =
          some (out ++ List.replicate (values.length - (n + m)) seed) ∧
      out.length = n + m := by
  intro m
  induction m with
  | zero =>
    intro hle
    refine ⟨List.replicate n seed, rfl, ?_, by simp⟩
    rw [List.replicate_append_replicate]
    have hlength : n + (values.length - (n + 0)) = values.length := by omega
    rw [hlength]
    rfl
  | succ m ih =>
    intro hle
    obtain ⟨out, hout, hema, hlength⟩ := ih (by omega)
    obtain ⟨value, hvalue⟩ : ∃ x, values[n + m]? = some x := getElem?_defined (by omega)
    obtain ⟨previous, hprevious⟩ : ∃ x, out[n + m - 1]? = some x := getElem?_defined (by omega)
    have hprevious' : (out ++ List.replicate (values.length - (n + m)) seed)[n + m - 1]? = some previous := by
      rw [List.getElem?_append_left (by omega), hprevious]
    have hnext : previous + (value - previous) * k = value * k + previous * (1 - k) := by ring
    have hrest : values.length - (n + m) = values.length - (n + (m + 1)) + 1 := by omega
    refine ⟨out ++ [value * k + previous * (1 - k)], ?_, ?_, ?_⟩
    · rw [List.range'_concat, List.foldlM_append, hout]
      simp [hvalue, hprevious]
    · rw [List.range'_concat, List.foldlM_append, hema]
      have hlt : n + m < (out ++ List.replicate (values.length - (n + m)) seed).length := by
        rw [List.length_append, List.length_replicate]
        omega
      simp only [Option.bind_eq_bind, Option.bind_some, List.foldlM_cons, List.foldlM_nil, one_mul,
        hprevious', hvalue, store, if_pos hlt, hnext]
      rw [List.set_append_right _ _ (by omega), hrest, List.replicate_succ, hlength, Nat.sub_self,
        List.set_cons_zero, List.append_assoc]
      rfl
    · rw [List.length_append, hlength]
      rfl

theorem emaSmaSeed_held (values : List ℚ) {n : ℕ} (hn : 0 < n) :
    emaSmaSeed values n = heldEma n (2 / ((n : ℚ) + 1)) values ∧
      ∃ ema, emaSmaSeed values n = some ema ∧ ema.length = values.length := by
  have heq : emaSmaSeed values n = heldEma n (2 / ((n : ℚ) + 1)) values := by
    rw [emaSmaSeed, heldEma]
    simp only [lit_exact]
    by_cases hempty : values = []
    · subst hempty
      rw [List.length_nil, Nat.zero_sub]
      rfl
    · rw [if_neg (by simpa using hempty)]
      by_cases hshort : n ≤ values.length
      · obtain ⟨out, hout, hema, hlength⟩ := ema_steps values hn (2 / ((n : ℚ) + 1))
          (sumOf (values.take n) / n) (values.length - n) (by omega)
        have hend : values.length - (n + (values.length - n)) = 0 := by omega
        rw [hend, List.replicate_zero, List.append_nil] at hema
        rw [Nat.min_eq_left hshort, hema]
        exact hout
      · have hzero : values.length - n = 0 := by omega
        rw [hzero, Nat.min_eq_right (by omega)]
        rfl
  obtain ⟨ema, hema, hlength⟩ := heldEma_defined n (2 / ((n : ℚ) + 1)) values
  exact ⟨heq, ema, heq.trans hema, hlength⟩

theorem indexwise_zipWith {f : ℚ → ℚ → ℚ} {xs ys : List ℚ} {n : ℕ} (hxs : xs.length = n)
    (hys : ys.length = n) : indexwise n f xs ys = some (List.zipWith f xs ys) := by
  have hread : indexwise n f xs ys = some ((List.range n).map fun i => f (xs[i]?.getD 0) (ys[i]?.getD 0)) := by
    refine mapM_eq fun i hi => ?_
    have hi := List.mem_range.1 hi
    rw [List.getElem?_eq_getElem (hxs ▸ hi), List.getElem?_eq_getElem (hys ▸ hi)]
    rfl
  rw [hread]
  refine congrArg some (List.ext_getElem (by simp [hxs, hys]) fun i hi hi' => ?_)
  rw [List.length_map, List.length_range] at hi
  simp [List.getElem?_eq_getElem (hxs ▸ hi), List.getElem?_eq_getElem (hys ▸ hi)]

/-- **MACD** is the same series. -/
theorem calcMacd_daily (klines : List (MinuteKline ℚ)) :
    calcDailyMacd (klines.map MinuteKline.close) = calcMacd klines := by
  rw [calcDailyMacd, calcMacd]
  generalize klines.map MinuteKline.close = closes
  by_cases hempty : closes.length = 0
  · rw [List.eq_nil_of_length_eq_zero hempty]
    rfl
  · obtain ⟨heq12, ema12, h12, hlength12⟩ := emaSmaSeed_held closes (show 0 < 12 by decide)
    obtain ⟨heq26, ema26, h26, hlength26⟩ := emaSmaSeed_held closes (show 0 < 26 by decide)
    have hdif := @indexwise_zipWith (· - ·) _ _ _ hlength12 hlength26
    obtain ⟨heq9, dea, hdea, hlengthDea⟩ :=
      emaSmaSeed_held (List.zipWith (· - ·) ema12 ema26) (show 0 < 9 by decide)
    have hlengthDif : (List.zipWith (· - ·) ema12 ema26).length = closes.length := by
      rw [List.length_zipWith, hlength12, hlength26, min_self]
    have hbar := @indexwise_zipWith (fun d s => (d - s) * 2) _ _ _ hlengthDif (hlengthDea.trans hlengthDif)
    have hk12 : (2 / 13 : ℚ) = 2 / (((12 : ℕ) : ℚ) + 1) := by norm_num
    have hk26 : (2 / 27 : ℚ) = 2 / (((26 : ℕ) : ℚ) + 1) := by norm_num
    have hk9 : (2 / 10 : ℚ) = 2 / (((9 : ℕ) : ℚ) + 1) := by norm_num
    simp only [lit_exact, if_neg hempty, hk12, hk26, hk9, ← heq12, ← heq26, h12, h26, hdif,
      Option.bind_eq_bind, Option.bind_some, ← heq9, hdea, hbar]

/-! ## The whole pipelines -/

/-- **The minute pipeline is the daily one**: every stage is defined and gives what the daily stage
gives on the same columns. -/
theorem minute_is_daily (klines : List (MinuteKline ℚ)) (hnodup : (klines.map MinuteKline.time).Nodup) :
    ∃ fractals strokes dif dea bar measured,
      findFractals (mergeKlines klines) = some fractals ∧ findStrokes fractals = some strokes ∧
      calcMacd klines = some (dif, dea, bar) ∧ detectDivergence strokes bar klines = some measured ∧
      mergeByIndex (klines.map MinuteKline.time) (klines.map MinuteKline.high)
        (klines.map MinuteKline.low) = some ((mergeKlines klines).map MergedKline.toDaily) ∧
      fractalsByIndex ((mergeKlines klines).map MergedKline.toDaily) =
        some (fractals.map Fractal.toDaily) ∧
      strokesByIndex (fractals.map Fractal.toDaily) = some (strokes.map Stroke.toDaily) ∧
      calcDailyMacd (klines.map MinuteKline.close) = some (dif, dea, bar) ∧
      detectDailyDivergence (strokes.map Stroke.toDaily) bar (klines.map MinuteKline.time) =
        some (measured.map Stroke.toMeasured) := by
  have hmerged := mergeKlines_daily klines
  have hbars : klines.map MinuteKline.time = (klines.map MinuteKline.toBar).map Bar.date := by
    rw [List.map_map]
    rfl
  obtain ⟨fractals, hfractals, hdailyFractals⟩ := Option.map_eq_some_iff.1
    ((findFractals_daily (mergeKlines klines)).symm.trans (fractalsByIndex_eq _))
  obtain ⟨strokes, hstrokes, hdailyStrokes⟩ := Option.map_eq_some_iff.1
    ((findStrokes_daily fractals).symm.trans (strokesByIndex_eq _))
  obtain ⟨dif, dea, bar, hmacd, hlength⟩ := calcDailyMacd_defined (klines.map MinuteKline.close)
  have hareas : ∀ x ∈ strokes.map Stroke.toDaily, ∃ area,
      areaOf bar (klines.map MinuteKline.time) x = some area := by
    intro x hx
    have hmerge : mergeDailyKlines (klines.map MinuteKline.toBar) =
        (mergeKlines klines).map MergedKline.toDaily := by
      have hindex := mergeByIndex_eq (klines.map MinuteKline.toBar)
      simp only [List.map_map] at hindex
      exact Option.some.inj (hindex.symm.trans hmerged)
    rw [hbars] at hnodup ⊢
    rw [hdailyStrokes, hdailyFractals, ← hmerge] at hx
    obtain ⟨si, ei, hsi, hei, hle, hlt⟩ := stroke_dates hnodup hx
    refine areaOf_defined hsi hei hle ?_
    rw [hlength, List.length_map]
    rwa [List.length_map] at hlt
  obtain ⟨dailyMeasured, hdaily, -⟩ := detectDailyDivergence_defined hareas
  obtain ⟨measured, hmeasured, hsame⟩ := Option.map_eq_some_iff.1
    ((detectDivergence_daily strokes bar klines).symm.trans hdaily)
  refine ⟨fractals, strokes, dif, dea, bar, measured, hfractals, hstrokes,
    (calcMacd_daily klines).symm.trans hmacd, hmeasured, hmerged, ?_, ?_, hmacd, ?_⟩
  · rw [findFractals_daily, hfractals]
    rfl
  · rw [findStrokes_daily, hstrokes]
    rfl
  · rw [hdaily, hsame]

theorem minute_is_daily_three : ∃ fractals strokes dif dea bar measured,
    let klines : List (MinuteKline ℚ) := [⟨"09:35", 1, 2, 3, 1, 5⟩, ⟨"09:40", 2, 3, 4, 2, 5⟩, ⟨"09:45", 3, 1, 3, 1, 5⟩]
    findFractals (mergeKlines klines) = some fractals ∧ findStrokes fractals = some strokes ∧
      calcMacd klines = some (dif, dea, bar) ∧ detectDivergence strokes bar klines = some measured ∧
      mergeByIndex (klines.map MinuteKline.time) (klines.map MinuteKline.high)
        (klines.map MinuteKline.low) = some ((mergeKlines klines).map MergedKline.toDaily) ∧
      fractalsByIndex ((mergeKlines klines).map MergedKline.toDaily) =
        some (fractals.map Fractal.toDaily) ∧
      strokesByIndex (fractals.map Fractal.toDaily) = some (strokes.map Stroke.toDaily) ∧
      calcDailyMacd (klines.map MinuteKline.close) = some (dif, dea, bar) ∧
      detectDailyDivergence (strokes.map Stroke.toDaily) bar (klines.map MinuteKline.time) =
        some (measured.map Stroke.toMeasured) :=
  minute_is_daily _ (by decide)

end Astock.Chan
