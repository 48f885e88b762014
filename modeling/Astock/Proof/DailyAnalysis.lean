import Astock.Spec.DailyAnalysis
import Mathlib.Data.List.NodupEquivFin
import Mathlib.Data.List.ReduceOption

/-!
# The daily Chan analysis stays in range

Whatever the numbers are: the analysis of slices of one length with distinct dates returns.

* `mergeByIndex_eq`, `fractalsByIndex_eq`, `strokesByIndex_eq`: the loops over indices make the lists
  of `Spec/Chan.lean`, and end.
* `dateEnds_sublist`: the dates of the merged klines are dates of the input, in order.
* `Spans`: a stroke goes from one fractal to another at least four merged klines later.
* `stroke_dates`: the dates of a stroke have indices, in order.
* `findZhongshus_spec`: the zones are apart, and end before the last stroke.
* `analysis_defined`: the analysis returns.
-/

namespace Astock.Chan

open Float64 Checked

variable {F : Type} [FixedFloat F]

/-! ## The loops over indices -/

omit [FixedFloat F] in
/-- Slices of one length are the columns of a list of bars. -/
theorem exists_bars : ∀ (dates : List String) (highs lows : List F),
    highs.length = dates.length → lows.length = dates.length → ∃ bars : List (Bar F),
      dates = bars.map Bar.date ∧ highs = bars.map Bar.high ∧ lows = bars.map Bar.low
  | [], [], [], _, _ => ⟨[], rfl, rfl, rfl⟩
  | date :: dates, high :: highs, low :: lows, hhighs, hlows => by
    obtain ⟨bars, rfl, rfl, rfl⟩ :=
      exists_bars dates highs lows (Nat.succ.inj hhighs) (Nat.succ.inj hlows)
    exact ⟨⟨date, high, low⟩ :: bars, rfl, rfl, rfl⟩

theorem barAt_bars {bars : List (Bar F)} {i : ℕ} {bar : Bar F} (h : bars[i]? = some bar) :
    barAt (bars.map Bar.date) (bars.map Bar.high) (bars.map Bar.low) i = some bar := by
  simp [barAt, h]

theorem foldlM_mergeStep (bars : List (Bar F)) :
    ∀ (merged : List (MergedDailyKline F)) (cur : MergedDailyKline F), ∃ state,
      bars.foldlM (fun state bar => some (mergeStep state bar)) (merged, cur) = some state ∧
        state.1 ++ [state.2] = merged ++ mergeFrom cur bars := by
  induction bars with
  | nil => exact fun merged cur => ⟨_, rfl, rfl⟩
  | cons bar bars ih =>
    intro merged cur
    rw [List.foldlM_cons, mergeFrom, mergeStep]
    by_cases hin : cur.contains bar
    · rw [if_pos hin, if_pos hin]
      exact ih _ _
    · rw [if_neg hin, if_neg hin]
      obtain ⟨state, hfold, heq⟩ := ih (merged ++ [cur]) (openSegment bar (directionOf cur bar))
      refine ⟨state, hfold, ?_⟩
      rw [heq, List.append_assoc]
      rfl

theorem mergeByIndex_eq (bars : List (Bar F)) :
    mergeByIndex (bars.map Bar.date) (bars.map Bar.high) (bars.map Bar.low) =
      some (mergeDailyKlines bars) := by
  cases bars with
  | nil => rfl
  | cons first bars =>
    obtain ⟨state, hfold, heq⟩ := foldlM_mergeStep bars [] (openSegment first 0)
    have hloop : (List.range' 1 bars.length).foldlM (fun state i =>
        (barAt ((first :: bars).map Bar.date) ((first :: bars).map Bar.high)
          ((first :: bars).map Bar.low) i).map (mergeStep state)) ([], openSegment first 0) =
        some state := by
      have hdrop : (first :: bars).drop 1 = bars := rfl
      refine (foldlM_indices (fun s i bar hbar => ?_) bars 1 _ hdrop).trans hfold
      rw [barAt_bars hbar]
      rfl
    have hlength : ((first :: bars).map Bar.date).length - 1 = bars.length := by simp
    rw [mergeByIndex, if_neg (by simp), barAt_bars rfl, Option.bind_eq_bind, Option.bind_some,
      hlength, hloop]
    exact congrArg some heq

/-- The fractals behind the kline at index `k`. -/
theorem mapM_fractalAt {merged : List (MergedDailyKline F)} :
    ∀ (rest : List (MergedDailyKline F)) (k : ℕ), merged.drop k = rest →
      ((List.range' (k + 1) (rest.length - 1 - 1)).mapM fun i => do
        let left ← merged[i - 1]?
        let cur ← merged[i]?
        let right ← merged[i + 1]?
        some (fractalAt i left cur right)).map List.reduceOption =
      some (fractalsFrom (k + 1) rest)
  | [], _, _ => rfl
  | [_], _, _ => rfl
  | [_, _], _, _ => rfl
  | left :: cur :: right :: rest, k, hdrop => by
    have hleft : merged[k]? = some left := by
      rw [← List.head?_drop, hdrop]
      rfl
    have hnext : merged.drop (k + 1) = cur :: right :: rest := by
      rw [← List.tail_drop, hdrop]
      rfl
    have hcur : merged[k + 1]? = some cur := by
      rw [← List.head?_drop, hnext]
      rfl
    have hright : merged[k + 1 + 1]? = some right := by
      rw [← List.head?_drop, ← List.tail_drop, hnext]
      rfl
    have ih := mapM_fractalAt (cur :: right :: rest) (k + 1) hnext
    obtain ⟨found, hfound, hlist⟩ := Option.map_eq_some_iff.1 ih
    have hrange : List.range' (k + 1) ((left :: cur :: right :: rest).length - 1 - 1) =
        (k + 1) :: List.range' (k + 1 + 1) ((cur :: right :: rest).length - 1 - 1) := by
      simp [List.range'_succ]
    rw [hrange, List.mapM_cons, hfound, Nat.add_sub_cancel, hleft, hcur, hright]
    rw [fractalsFrom, ← hlist]
    cases hf : fractalAt (k + 1) left cur right with
    | none => simp [hf, List.reduceOption_cons_of_none]
    | some f => simp [hf, List.reduceOption_cons_of_some]

theorem fractalsByIndex_eq (merged : List (MergedDailyKline F)) :
    fractalsByIndex merged = some (findDailyFractals merged) :=
  mapM_fractalAt merged 0 rfl

theorem closedBy_turn (s : StrokeState F) (stop : DailyFractal F × ℕ) (f : DailyFractal F) :
    (s.turn stop).closedBy f = none := by
  rw [StrokeState.closedBy]
  exact ite_self none

/-- Two rounds are enough for each fractal that is left. -/
theorem strokeLoop_eq {fractals : List (DailyFractal F)} :
    ∀ (rest : List (DailyFractal F)) (rounds j : ℕ) (s : StrokeState F) (strokes : List (DailyStroke F)),
      fractals.drop j = rest → 2 * rest.length + 1 ≤ rounds →
      strokeLoop fractals rounds s j strokes = some (strokes ++ strokesFrom s j rest)
  | [], rounds, j, s, strokes, hdrop, hrounds => by
    obtain ⟨rounds, rfl⟩ := Nat.exists_eq_add_of_le' hrounds
    have hend : ¬j < fractals.length := not_lt.2 (List.drop_eq_nil_iff.1 hdrop)
    rw [List.length_nil, Nat.mul_zero, Nat.zero_add, strokeLoop, if_neg hend, strokesFrom]
  | f :: rest, rounds, j, s, strokes, hdrop, hrounds => by
    have hf : fractals[j]? = some f := by
      rw [← List.head?_drop, hdrop]
      rfl
    have hj : j < fractals.length := (List.getElem?_eq_some_iff.1 hf).1
    have hrest : fractals.drop (j + 1) = rest := by
      rw [← List.tail_drop, hdrop]
      rfl
    rw [List.length_cons] at hrounds
    obtain ⟨rounds, rfl⟩ : ∃ n, rounds = n + 2 := ⟨rounds - 2, by omega⟩
    rw [strokeLoop, if_pos hj, hf, Option.bind_eq_bind, Option.bind_some, strokesFrom]
    cases s.closedBy f with
    | none => exact strokeLoop_eq rest (rounds + 1) (j + 1) _ strokes hrest (by omega)
    | some stop =>
      -- the fractal is looked at again, with nothing pending
      dsimp only
      rw [strokeLoop, if_pos hj, hf, Option.bind_eq_bind, Option.bind_some, closedBy_turn]
      dsimp only
      rw [strokeLoop_eq rest rounds (j + 1) _ _ hrest (by omega), List.append_assoc]
      rfl

theorem strokesByIndex_eq (fractals : List (DailyFractal F)) :
    strokesByIndex fractals = some (findDailyStrokes fractals) := by
  cases fractals with
  | nil => rfl
  | cons start rest =>
    have hrounds : 2 * rest.length + 1 ≤ 2 * (start :: rest).length := by
      rw [List.length_cons]
      omega
    exact strokeLoop_eq rest _ 1 _ [] rfl hrounds

/-! ## Dates -/

/-- The merged klines end at dates of the input, in order. -/
theorem dateEnds_mergeFrom (bars : List (Bar F)) : ∀ cur : MergedDailyKline F,
    ((mergeFrom cur bars).map MergedDailyKline.dateEnd).Sublist (cur.dateEnd :: bars.map Bar.date) := by
  induction bars with
  | nil => exact fun _ => .refl _
  | cons bar bars ih =>
    intro cur
    rw [mergeFrom]
    split
    · exact (ih (cur.absorb bar)).cons _
    · exact (ih (openSegment bar (directionOf cur bar))).cons_cons _

theorem dateEnds_sublist (bars : List (Bar F)) :
    ((mergeDailyKlines bars).map MergedDailyKline.dateEnd).Sublist (bars.map Bar.date) := by
  cases bars with
  | nil => exact .refl _
  | cons bar bars => exact dateEnds_mergeFrom bars (openSegment bar 0)

theorem fractalAt_eq_some {index : ℕ} {left cur right : MergedDailyKline F} {f : DailyFractal F}
    (h : fractalAt index left cur right = some f) : f.index = index ∧ f.date = cur.dateEnd := by
  rw [fractalAt] at h
  split at h
  · obtain rfl := Option.some.inj h
    exact ⟨rfl, rfl⟩
  · split at h
    · obtain rfl := Option.some.inj h
      exact ⟨rfl, rfl⟩
    · cases h

/-- A fractal has the date of the kline at its index. -/
theorem date_fractalsFrom {merged : List (MergedDailyKline F)} :
    ∀ (rest : List (MergedDailyKline F)) (k : ℕ), merged.drop k = rest →
      ∀ f ∈ fractalsFrom (k + 1) rest, merged[f.index]?.map MergedDailyKline.dateEnd = some f.date
  | [], _, _, _, hf => nomatch hf
  | [_], _, _, _, hf => nomatch hf
  | [_, _], _, _, _, hf => nomatch hf
  | left :: cur :: right :: rest, k, hdrop, f, hf => by
    have hnext : merged.drop (k + 1) = cur :: right :: rest := by
      rw [← List.tail_drop, hdrop]
      rfl
    rw [fractalsFrom, List.mem_append] at hf
    rcases hf with hf | hf
    · obtain ⟨hindex, hdate⟩ := fractalAt_eq_some (Option.mem_toList.1 hf)
      rw [hindex, hdate, ← List.head?_drop, hnext]
      rfl
    · exact date_fractalsFrom (cur :: right :: rest) (k + 1) hnext f hf

theorem date_findDailyFractals {merged : List (MergedDailyKline F)} {f : DailyFractal F}
    (hf : f ∈ findDailyFractals merged) :
    merged[f.index]?.map MergedDailyKline.dateEnd = some f.date :=
  date_fractalsFrom merged 0 rfl f hf

/-- A stroke goes from one fractal to another, at least four merged klines later. -/
def Spans (fs : List (DailyFractal F)) (x : DailyStroke F) : Prop :=
  ∃ a ∈ fs, ∃ b ∈ fs, x.startDate = a.date ∧ x.endDate = b.date ∧ a.index + 4 ≤ b.index

/-- The start and a pending endpoint are fractals, and far enough apart. -/
structure Pending (fs : List (DailyFractal F)) (s : StrokeState F) : Prop where
  start : s.start ∈ fs
  stop : ∀ stop ∈ s.stop, stop.1 ∈ fs ∧ s.start.index + 4 ≤ stop.1.index

theorem Pending.spans {fs : List (DailyFractal F)} {s : StrokeState F} (h : Pending fs s)
    {stop : DailyFractal F × ℕ} (hstop : s.stop = some stop) : Spans fs (s.stroke stop) := by
  obtain ⟨hmem, hgap⟩ := h.stop stop hstop
  exact ⟨s.start, h.start, stop.1, hmem, rfl, rfl, hgap⟩

theorem Pending.turn {fs : List (DailyFractal F)} {s : StrokeState F} (h : Pending fs s)
    {stop : DailyFractal F × ℕ} (hstop : s.stop = some stop) : Pending fs (s.turn stop) :=
  ⟨(h.stop stop hstop).1, fun _ hnone => nomatch hnone⟩

/-- A round that closes nothing: the start only moves while nothing is pending. -/
theorem Pending.visit {fs : List (DailyFractal F)} {s : StrokeState F} (h : Pending fs s)
    {f : DailyFractal F} (hf : f ∈ fs) (hopen : s.closedBy f = none) (j : ℕ) :
    Pending fs (s.visit j f) := by
  rw [StrokeState.visit]
  by_cases hsame : f.fractalType = s.start.fractalType
  · have hidle : s.stop = none := by rwa [StrokeState.closedBy, if_pos hsame] at hopen
    rw [if_pos hsame]
    split
    · refine ⟨hf, fun stop hstop => ?_⟩
      change s.stop = some stop at hstop
      rw [hidle] at hstop
      cases hstop
    · exact h
  · rw [if_neg hsame]
    split
    · rename_i hgap
      refine ⟨h.start, fun stop hstop => ?_⟩
      obtain rfl : (f, j) = stop := Option.some.inj hstop
      exact ⟨hf, hgap⟩
    · exact h

theorem spans_strokesFrom {fs : List (DailyFractal F)} (rest : List (DailyFractal F)) :
    ∀ (s : StrokeState F) (j : ℕ), Pending fs s → (∀ f ∈ rest, f ∈ fs) →
      ∀ x ∈ strokesFrom s j rest, Spans fs x := by
  induction rest with
  | nil =>
    intro s j h _ x hx
    obtain ⟨stop, hstop, rfl⟩ := List.mem_map.1 hx
    exact h.spans (Option.mem_toList.1 hstop)
  | cons f rest ih =>
    intro s j h hrest x hx
    obtain ⟨hf, hrest⟩ := List.forall_mem_cons.1 hrest
    rw [strokesFrom] at hx
    cases hclosed : s.closedBy f with
    | none =>
      rw [hclosed] at hx
      exact ih _ _ (h.visit hf hclosed j) hrest x hx
    | some stop =>
      have hstop : s.stop = some stop := by
        rw [StrokeState.closedBy] at hclosed
        split at hclosed
        · exact hclosed
        · cases hclosed
      rw [hclosed] at hx
      rcases List.mem_cons.1 hx with rfl | hx
      · exact h.spans hstop
      · exact ih _ _ ((h.turn hstop).visit hf (closedBy_turn s stop f) j) hrest x hx

theorem spans_findDailyStrokes (fs : List (DailyFractal F)) :
    ∀ x ∈ findDailyStrokes fs, Spans fs x := by
  cases fs with
  | nil => exact fun x hx => nomatch hx
  | cons start rest =>
    exact spans_strokesFrom rest _ 1 ⟨List.mem_cons_self, fun _ hnone => nomatch hnone⟩
      fun f hf => List.mem_cons_of_mem _ hf

/-- A date that occurs once is found where it is. -/
theorem dateToIdx_of_nodup {date : String} : ∀ {dates : List String} {i : ℕ}, dates.Nodup →
    dates[i]? = some date → dateToIdx dates date = some i := by
  intro dates
  induction dates using List.reverseRecOn with
  | nil => exact fun _ hi => nomatch hi
  | append_singleton dates last ih =>
    intro i hnodup hi
    obtain ⟨hinit, -, hapart⟩ := List.nodup_append.1 hnodup
    have hsplit : dateToIdx (dates ++ [last]) date =
        if last = date then some dates.length else dateToIdx dates date := by
      rw [dateToIdx, List.zipIdx_append, List.foldl_append]
      simp [dateToIdx]
    rw [hsplit]
    by_cases hlt : i < dates.length
    · rw [List.getElem?_append_left hlt] at hi
      have hne : last ≠ date := by
        rintro rfl
        exact hapart _ (List.mem_of_getElem? hi) _ List.mem_cons_self rfl
      rw [if_neg hne]
      exact ih hinit hi
    · rw [List.getElem?_append_right (not_lt.1 hlt)] at hi
      obtain ⟨hle, hlast⟩ := List.getElem?_eq_some_iff.1 hi
      have hzero : i - dates.length = 0 := by
        simpa using hle
      have hi' : i = dates.length := by omega
      rw [if_pos (by simpa [hzero] using hlast), hi']

variable {dates : List String} {highs lows closes : List F}

/-- **The dates of a stroke have indices, in order.** They are dates of fractals of a series whose
dates are a part of the input's. -/
theorem stroke_dates {bars : List (Bar F)} (hnodup : (bars.map Bar.date).Nodup) {x : DailyStroke F}
    (hx : x ∈ findDailyStrokes (findDailyFractals (mergeDailyKlines bars))) :
    ∃ si ei, dateToIdx (bars.map Bar.date) x.startDate = some si ∧
      dateToIdx (bars.map Bar.date) x.endDate = some ei ∧ si ≤ ei ∧ ei < bars.length := by
  obtain ⟨a, ha, b, hb, hstart, hend, hgap⟩ := spans_findDailyStrokes _ x hx
  obtain ⟨place, hplace⟩ :=
    List.sublist_iff_exists_orderEmbedding_getElem?_eq.1 (dateEnds_sublist bars)
  have hdate : ∀ {f : DailyFractal F}, f ∈ findDailyFractals (mergeDailyKlines bars) →
      (bars.map Bar.date)[place f.index]? = some f.date := by
    intro f hf
    rw [← hplace, List.getElem?_map]
    exact date_findDailyFractals hf
  have hlt : place a.index < place b.index := place.strictMono (by omega)
  have hlength := (List.getElem?_eq_some_iff.1 (hdate hb)).1
  rw [List.length_map] at hlength
  refine ⟨place a.index, place b.index, ?_, ?_, hlt.le, hlength⟩
  · rw [hstart]
    exact dateToIdx_of_nodup hnodup (hdate ha)
  · rw [hend]
    exact dateToIdx_of_nodup hnodup (hdate hb)

/-! ## Zhongshus -/

/-- A zone of two neighbouring strokes that are not the last. -/
structure Formed (n : ℕ) (z : Zhongshu F) : Prop where
  next : z.strokeEndIdx = z.strokeStartIdx + 1
  inside : z.strokeEndIdx + 1 < n
  proper : z.zd < z.zg

/-- The loop moves on in every round. -/
theorem zhongshuLoop_defined (strokes : List (DailyStroke F)) : ∀ (rounds i : ℕ),
    i ≤ strokes.length → strokes.length < rounds + i → ∃ zs, zhongshuLoop strokes rounds i = some zs ∧
      (∀ z ∈ zs, Formed strokes.length z ∧ i ≤ z.strokeStartIdx) ∧
      zs.Pairwise fun z z' => z.strokeEndIdx < z'.strokeStartIdx
  | 0, i, hi, hrounds => by omega
  | rounds + 1, i, hi, hrounds => by
    rw [zhongshuLoop]
    by_cases hlt : i + 2 < strokes.length
    swap
    · exact ⟨[], if_neg hlt, fun z hz => absurd hz List.not_mem_nil, .nil⟩
    obtain ⟨a, ha⟩ : ∃ a, strokes[i]? = some a := getElem?_defined (by omega)
    obtain ⟨b, hb⟩ : ∃ b, strokes[i + 1]? = some b := getElem?_defined (by omega)
    rw [if_pos hlt, ha, hb]
    simp only [Option.bind_eq_bind, Option.bind_some]
    by_cases hproper : (overlap a b).1 < (overlap a b).2
    · rw [if_pos hproper]
      obtain ⟨zs, hzs, hall, hapart⟩ :=
        zhongshuLoop_defined strokes rounds (i + 2) (by omega) (by omega)
      refine ⟨zhongshuOf i a b :: zs, by rw [hzs]; rfl, ?_, .cons (fun z hz => ?_) hapart⟩
      · intro z hz
        rcases List.mem_cons.1 hz with rfl | hz
        · exact ⟨⟨rfl, hlt, hproper⟩, le_rfl⟩
        · exact ⟨(hall z hz).1, (Nat.le_add_right i 2).trans (hall z hz).2⟩
      · exact (Nat.lt_succ_self (i + 1)).trans_le (hall z hz).2
    · rw [if_neg hproper]
      obtain ⟨zs, hzs, hall, hapart⟩ :=
        zhongshuLoop_defined strokes rounds (i + 1) (by omega) (by omega)
      exact ⟨zs, hzs, fun z hz => ⟨(hall z hz).1, (Nat.le_succ i).trans (hall z hz).2⟩, hapart⟩

/-- Breaking a zone leaves its strokes and its bounds. -/
theorem breakBy_frame (z : Zhongshu F) : ∀ later : List (DailyStroke F),
    (z.breakBy later).strokeStartIdx = z.strokeStartIdx ∧
      (z.breakBy later).strokeEndIdx = z.strokeEndIdx ∧
      (z.breakBy later).zd = z.zd ∧ (z.breakBy later).zg = z.zg
  | [] => ⟨rfl, rfl, rfl, rfl⟩
  | s :: later => by
    rw [Zhongshu.breakBy]
    split
    · exact ⟨rfl, rfl, rfl, rfl⟩
    · split
      · exact ⟨rfl, rfl, rfl, rfl⟩
      · exact breakBy_frame z later

theorem Formed.breakBy {n : ℕ} {z : Zhongshu F} (h : Formed n z) (later : List (DailyStroke F)) :
    Formed n (z.breakBy later) := by
  obtain ⟨hstart, hend, hzd, hzg⟩ := breakBy_frame z later
  refine ⟨?_, ?_, ?_⟩
  · rw [hstart, hend]
    exact h.next
  · rw [hend]
    exact h.inside
  · rw [hzd, hzg]
    exact h.proper

/-- **The zones** are apart, and the slice behind each of them is in range. -/
theorem findZhongshus_spec (strokes : List (DailyStroke F)) :
    ∃ zs, findZhongshus strokes = some zs ∧ (∀ z ∈ zs, Formed strokes.length z) ∧
      zs.Pairwise fun z z' => z.strokeEndIdx < z'.strokeStartIdx := by
  obtain ⟨zs, hzs, hall, hapart⟩ :=
    zhongshuLoop_defined strokes (strokes.length + 1) 0 (Nat.zero_le _) (Nat.lt_succ_self _)
  refine ⟨zs.map fun z => z.breakBy (strokes.drop (z.strokeEndIdx + 1)), ?_, ?_, ?_⟩
  · rw [findZhongshus, hzs, Option.bind_eq_bind, Option.bind_some]
    refine mapM_eq fun z hz => ?_
    rw [sliceFrom, if_pos (hall z hz).1.inside.le]
    rfl
  · intro z' hz'
    obtain ⟨z, hz, rfl⟩ := List.mem_map.1 hz'
    exact (hall z hz).1.breakBy _
  · rw [List.pairwise_map]
    refine hapart.imp fun {z z'} hlt => ?_
    rwa [(breakBy_frame z _).2.1, (breakBy_frame z' _).1]

/-! ## MACD -/

theorem heldEma_defined (window : ℕ) (k : F) (values : List F) :
    ∃ ema, heldEma window k values = some ema ∧ ema.length = values.length := by
  refine foldlM_defined (fun ema hlength i hi => ?_) _ (List.length_replicate)
  obtain ⟨hlow, hhigh⟩ := List.mem_range'_1.1 hi
  obtain ⟨previous, hprevious⟩ : ∃ x, ema[i - 1]? = some x := getElem?_defined (by omega)
  obtain ⟨value, hvalue⟩ : ∃ x, values[i]? = some x := getElem?_defined (by omega)
  refine ⟨ema.set i (previous + (value - previous) * k), ?_, by rw [List.length_set, hlength]⟩
  rw [hprevious, hvalue]
  exact if_pos (by omega)

omit [FixedFloat F] in
theorem indexwise_defined {n : ℕ} {f : F → F → F} {xs ys : List F} (hxs : xs.length = n)
    (hys : ys.length = n) : ∃ zs, indexwise n f xs ys = some zs ∧ zs.length = n := by
  obtain ⟨zs, hzs, hall⟩ := mapM_defined (P := fun _ _ => True) (l := List.range n)
    (f := fun i => do
      let x ← xs[i]?
      let y ← ys[i]?
      some (f x y)) fun i hi => by
    have hi := List.mem_range.1 hi
    obtain ⟨x, hx⟩ : ∃ x, xs[i]? = some x := getElem?_defined (by omega)
    obtain ⟨y, hy⟩ : ∃ y, ys[i]? = some y := getElem?_defined (by omega)
    exact ⟨f x y, by rw [hx, hy]; rfl, trivial⟩
  exact ⟨zs, hzs, hall.length_eq.symm.trans List.length_range⟩

theorem calcDailyMacd_defined (closes : List F) :
    ∃ dif dea bar, calcDailyMacd closes = some (dif, dea, bar) ∧ bar.length = closes.length := by
  rw [calcDailyMacd]
  by_cases hempty : closes.length = 0
  · exact ⟨[], [], [], if_pos hempty, hempty.symm⟩
  obtain ⟨ema12, h12, hlength12⟩ := heldEma_defined 12 (lit 2 / lit 13) closes
  obtain ⟨ema26, h26, hlength26⟩ := heldEma_defined 26 (lit 2 / lit 27) closes
  obtain ⟨dif, hdif, hlengthDif⟩ := indexwise_defined (f := (· - ·)) hlength12 hlength26
  obtain ⟨dea, hdea, hlengthDea⟩ := heldEma_defined 9 (lit 2 / lit 10) dif
  obtain ⟨bar, hbar, hlengthBar⟩ :=
    indexwise_defined (f := fun d e => (d - e) * lit 2) hlengthDif (hlengthDea.trans hlengthDif)
  refine ⟨dif, dea, bar, ?_, hlengthBar⟩
  rw [if_neg hempty, h12, h26]
  simp only [Option.bind_eq_bind, Option.bind_some, hdif, hdea, hbar]

/-! ## Divergence -/

omit [FixedFloat F] in
/-- The strokes before an index can be searched. -/
theorem previousOf_defined {strokes : List (DailyStroke F)} {i : ℕ} (hi : i ≤ strokes.length)
    (direction : StrokeDirection) :
    ∃ found, previousOf strokes i direction = some found ∧ ∀ p ∈ found, p < i := by
  obtain ⟨found, hfound, hmem⟩ := findM?_defined (l := (List.range i).reverse) (p := fun j => do
    let s ← strokes[j]?
    some (decide (s.direction = direction))) fun j hj => by
    have hj := List.mem_range.1 (List.mem_reverse.1 hj)
    obtain ⟨s, hs⟩ : ∃ s, strokes[j]? = some s := getElem?_defined (by omega)
    exact ⟨_, by rw [hs]; rfl⟩
  exact ⟨found, hfound, fun p hp => List.mem_range.1 (List.mem_reverse.1 (hmem p hp))⟩

/-- The dates of a stroke select a range of the MACD bars. -/
theorem areaOf_defined {macdBar : List F} {dates : List String} {x : DailyStroke F} {si ei : ℕ}
    (hsi : dateToIdx dates x.startDate = some si) (hei : dateToIdx dates x.endDate = some ei)
    (hle : si ≤ ei) (hlt : ei < macdBar.length) : ∃ area, areaOf macdBar dates x = some area := by
  have hrange : si ≤ ei + 1 ∧ ei + 1 ≤ macdBar.length := ⟨hle.trans (Nat.le_succ ei), hlt⟩
  rw [areaOf, hsi, hei]
  simp only [slice, if_pos hrange]
  exact ⟨_, rfl⟩

theorem divergesAt_defined {strokes : List (DailyStroke F)} {areas : List F}
    (hareas : areas.length = strokes.length) {i : ℕ} (hi : i < strokes.length) :
    ∃ flag, divergesAt strokes areas i = some flag := by
  obtain ⟨st, hst⟩ : ∃ s, strokes[i]? = some s := getElem?_defined hi
  obtain ⟨found, hfound, hbefore⟩ := previousOf_defined hi.le st.direction
  rw [divergesAt, hst]
  simp only [Option.bind_eq_bind, Option.bind_some, hfound]
  cases found with
  | none => exact ⟨_, rfl⟩
  | some p =>
    have hp : p < i := hbefore p rfl
    obtain ⟨prev, hprev⟩ : ∃ s, strokes[p]? = some s := getElem?_defined (by omega)
    obtain ⟨area, harea⟩ : ∃ x, areas[i]? = some x := getElem?_defined (by omega)
    obtain ⟨prevArea, hprevArea⟩ : ∃ x, areas[p]? = some x := getElem?_defined (by omega)
    simp only [hprev, harea, hprevArea, Option.bind_some]
    exact ⟨_, rfl⟩

/-- The strokes keep everything but the area and the flag. -/
theorem detectDailyDivergence_defined {strokes : List (DailyStroke F)} {macdBar : List F}
    {dates : List String} (hareas : ∀ x ∈ strokes, ∃ area, areaOf macdBar dates x = some area) :
    ∃ measured, detectDailyDivergence strokes macdBar dates = some measured ∧
      measured.map MeasuredStroke.toDailyStroke = strokes := by
  obtain ⟨areas, hareas, hallAreas⟩ :=
    mapM_defined (P := fun _ _ => True) fun x hx => (hareas x hx).imp fun _ h => ⟨h, trivial⟩
  have hlengthAreas : areas.length = strokes.length := hallAreas.length_eq.symm
  obtain ⟨flags, hflags, hallFlags⟩ := mapM_defined (P := fun _ _ => True)
    (f := divergesAt strokes areas) (l := List.range strokes.length) fun i hi =>
      (divergesAt_defined hlengthAreas (List.mem_range.1 hi)).imp fun _ h => ⟨h, trivial⟩
  have hlengthFlags : flags.length = strokes.length :=
    hallFlags.length_eq.symm.trans List.length_range
  obtain ⟨measured, hmeasured, hall⟩ := mapM_defined
    (P := fun (entry : DailyStroke F × ℕ) (m : MeasuredStroke F) => m.toDailyStroke = entry.1)
    (l := strokes.zipIdx) (f := fun entry => do
      let area ← areas[entry.2]?
      let flag ← flags[entry.2]?
      some { toDailyStroke := entry.1, macdArea := area, hasDivergence := flag }) fun entry hentry => by
    have hi : entry.2 < strokes.length := by
      simpa using List.snd_lt_of_mem_zipIdx hentry
    obtain ⟨area, harea⟩ : ∃ x, areas[entry.2]? = some x := getElem?_defined (by omega)
    obtain ⟨flag, hflag⟩ : ∃ x, flags[entry.2]? = some x := getElem?_defined (by omega)
    refine ⟨{ toDailyStroke := entry.1, macdArea := area, hasDivergence := flag }, ?_, rfl⟩
    dsimp only
    rw [harea, hflag]
    rfl
  refine ⟨measured, ?_, ?_⟩
  · rw [detectDailyDivergence, hareas]
    simp only [Option.bind_eq_bind, Option.bind_some, hflags]
    exact hmeasured
  · have hmap : measured.map MeasuredStroke.toDailyStroke = strokes.zipIdx.map Prod.fst := by
      rw [← List.forall₂_eq_eq_eq, List.forall₂_map_left_iff, List.forall₂_map_right_iff]
      exact hall.flip
    rw [hmap, List.zipIdx_map_fst]

/-! ## Signals -/

theorem divergenceConfidence_defined {strokes : List (MeasuredStroke F)} {i : ℕ}
    (hi : i < strokes.length) (direction : StrokeDirection) :
    ∃ confidence, divergenceConfidence strokes i direction = some confidence := by
  obtain ⟨st, hst⟩ : ∃ s, strokes[i]? = some s := getElem?_defined hi
  have hle : i ≤ (strokes.map MeasuredStroke.toDailyStroke).length := by
    rw [List.length_map]
    exact hi.le
  obtain ⟨found, hfound, hbefore⟩ := previousOf_defined hle direction
  rw [divergenceConfidence, hst]
  simp only [Option.bind_eq_bind, Option.bind_some, hfound]
  cases found with
  | none => exact ⟨_, rfl⟩
  | some p =>
    have hp : p < i := hbefore p rfl
    obtain ⟨prev, hprev⟩ : ∃ s, strokes[p]? = some s := getElem?_defined (by omega)
    simp only [hprev, Option.bind_some]
    split
    · exact ⟨_, rfl⟩
    · exact ⟨_, rfl⟩

theorem type1At_defined {strokes : List (MeasuredStroke F)} (st : MeasuredStroke F) {i : ℕ}
    (hi : i < strokes.length) : ∃ signal, type1At strokes st i = some signal := by
  rw [type1At]
  split
  · exact ⟨_, rfl⟩
  · split
    · obtain ⟨confidence, h⟩ := divergenceConfidence_defined hi .down
      exact ⟨_, by rw [h]; rfl⟩
    · obtain ⟨confidence, h⟩ := divergenceConfidence_defined hi .up
      exact ⟨_, by rw [h]; rfl⟩

theorem type2At_defined (strokes : List (MeasuredStroke F)) (st : MeasuredStroke F) (i : ℕ) :
    ∃ signal, type2At strokes st i = some signal := by
  rw [type2At]
  split
  · exact ⟨_, rfl⟩
  · split
    · rename_i hlt
      obtain ⟨nxt, hnxt⟩ : ∃ s, strokes[i + 2]? = some s := getElem?_defined hlt
      simp only [hnxt, Option.bind_eq_bind, Option.bind_some]
      split
      · exact ⟨_, rfl⟩
      · split
        · exact ⟨_, rfl⟩
        · exact ⟨_, rfl⟩
    · exact ⟨_, rfl⟩

theorem type3Of_defined (strokes : List (MeasuredStroke F)) (z : Zhongshu F) :
    ∃ signal, type3Of strokes z = some signal := by
  rw [type3Of]
  split
  · exact ⟨_, rfl⟩
  · split
    · exact ⟨_, rfl⟩
    · rename_i hlt
      obtain ⟨retro, hretro⟩ : ∃ s, strokes[z.strokeEndIdx + 2]? = some s :=
        getElem?_defined (not_le.1 hlt)
      simp only [hretro, Option.bind_eq_bind, Option.bind_some]
      split
      · split
        · exact ⟨_, rfl⟩
        · exact ⟨_, rfl⟩
      · split
        · exact ⟨_, rfl⟩
        · exact ⟨_, rfl⟩

theorem generateDailySignals_defined (strokes : List (MeasuredStroke F))
    (zhongshus : List (Zhongshu F)) :
    ∃ signals, generateDailySignals strokes zhongshus = some signals := by
  obtain ⟨type1, h1, -⟩ := mapM_defined (P := fun _ _ => True) (l := strokes.zipIdx)
    (f := fun entry => type1At strokes entry.1 entry.2) fun entry hentry =>
      (type1At_defined entry.1 (by simpa using List.snd_lt_of_mem_zipIdx hentry)).imp
        fun _ h => ⟨h, trivial⟩
  obtain ⟨type2, h2, -⟩ := mapM_defined (P := fun _ _ => True) (l := strokes.zipIdx)
    (f := fun entry => type2At strokes entry.1 entry.2) fun entry _ =>
      (type2At_defined strokes entry.1 entry.2).imp fun _ h => ⟨h, trivial⟩
  obtain ⟨type3, h3, -⟩ := mapM_defined (P := fun _ _ => True) (l := zhongshus)
    (f := type3Of strokes) fun z _ => (type3Of_defined strokes z).imp fun _ h => ⟨h, trivial⟩
  rw [generateDailySignals, h1, h2, h3]
  exact ⟨_, rfl⟩

/-! ## The analysis -/

/-- The strokes of a result span days of the input, and its zones are apart and made of its
strokes. -/
structure InRange (dates : List String) (r : ChanlunDailyResult F) : Prop where
  strokes : ∀ x ∈ r.strokes, ∃ si ei, dateToIdx dates x.startDate = some si ∧
    dateToIdx dates x.endDate = some ei ∧ si ≤ ei ∧ ei < dates.length
  zhongshus : ∀ z ∈ r.zhongshus, z.strokeStartIdx < z.strokeEndIdx ∧
    z.strokeEndIdx < r.strokes.length ∧ z.zd < z.zg
  /-- No two zones share a stroke, and they are in order. -/
  apart : r.zhongshus.Pairwise fun z z' => z.strokeEndIdx < z'.strokeStartIdx

/-- **The analysis cannot fail.** On slices of one length with distinct dates it returns, with every
index and slice that it takes in range. -/
theorem analysis_defined {dates : List String} (opens volumes : List F) {closes highs lows : List F}
    (hcloses : closes.length = dates.length) (hhighs : highs.length = dates.length)
    (hlows : lows.length = dates.length) (hnodup : dates.Nodup) :
    ∃ r, analyzeChanlunDaily dates opens closes highs lows volumes = some r ∧ InRange dates r := by
  obtain ⟨bars, rfl, rfl, rfl⟩ := exists_bars dates highs lows hhighs hlows
  set unmeasured := findDailyStrokes (findDailyFractals (mergeDailyKlines bars)) with hunmeasured
  obtain ⟨zhongshus, hzhongshus, hformed, hapart⟩ := findZhongshus_spec unmeasured
  obtain ⟨dif, dea, macdBar, hmacd, hlength⟩ := calcDailyMacd_defined closes
  have hareas : ∀ x ∈ unmeasured, ∃ area, areaOf macdBar (bars.map Bar.date) x = some area := by
    intro x hx
    obtain ⟨si, ei, hsi, hei, hle, hlt⟩ := stroke_dates hnodup hx
    refine areaOf_defined hsi hei hle ?_
    rw [hlength, hcloses, List.length_map]
    exact hlt
  obtain ⟨strokes, hstrokes, hsame⟩ := detectDailyDivergence_defined hareas
  obtain ⟨signals, hsignals⟩ := generateDailySignals_defined strokes zhongshus
  have hcount : strokes.length = unmeasured.length := by
    rw [← hsame, List.length_map]
  rw [analyzeChanlunDaily, mergeByIndex_eq]
  simp only [Option.bind_eq_bind, Option.bind_some, fractalsByIndex_eq, strokesByIndex_eq,
    ← hunmeasured, hzhongshus, hmacd, hstrokes, hsignals]
  refine ⟨_, rfl, fun x hx => ?_, fun z hz => ?_, hapart⟩
  · have hx' : x.toDailyStroke ∈ unmeasured := by
      rw [← hsame]
      exact List.mem_map_of_mem hx
    rw [List.length_map]
    exact stroke_dates hnodup hx'
  · obtain ⟨hnext, hinside, hproper⟩ := hformed z hz
    refine ⟨by omega, ?_, hproper⟩
    change z.strokeEndIdx < strokes.length
    omega

/-- Nineteen days with five turns. -/
def swingDates : List String :=
  ["01", "02", "03", "04", "05", "06", "07", "08", "09", "10", "11", "12", "13", "14", "15", "16",
    "17", "18", "19"]

/-- Their prices, which do not move within a day. -/
def swing : List ℚ := [10, 14, 12, 10, 8, 6, 8, 10, 12, 13, 11, 9, 7, 5, 7, 9, 11, 12, 10]

/-- Four strokes, of which the first two make a zone. -/
theorem analysis_defined_swing :
    (∃ r, analyzeChanlunDaily swingDates swing swing swing swing swing = some r ∧
      InRange swingDates r) ∧
    (analyzeChanlunDaily swingDates swing swing swing swing swing).map
      (fun r => (r.strokes.length, r.zhongshus.length)) = some (4, 1) :=
  ⟨analysis_defined swing swing rfl rfl rfl (by decide), by decide +kernel⟩

end Astock.Chan
