import Astock.Lib.Sorted
import Astock.Spec.PriceIn

/-!
# What price-in analysis uses of its series

* `returnBps_before`, `abnormalVolumeBps_before`: the return and the volume of a sorted series are
  those of its points before the event.
* `usable_up_to`: the price-earnings ratios that the change of valuation uses are those before the
  event and those of its day.
* `analyzePriceIn_congr`, `preEvent_congr`: inputs that agree on these have the same analysis.
* `priceIn_uses_event_day`: **the analysis is independent of what follows the event and of the
  prices of its day, but the valuation of the day counts in every analysis that is made.**
-/

namespace Astock.EventIntelligence

open Float64 WholeFloat

/-! ## What comes before an event -/

section Before

variable {F : Type} {points : List (PriceSeriesPoint F)} {eventDate : String} {n : ℕ}

def SortedByDate (points : List (PriceSeriesPoint F)) : Prop :=
  points.Pairwise fun p q => p.date ≤ q.date

/-- The points that are dated before the event. -/
def before (eventDate : String) (points : List (PriceSeriesPoint F)) : List (PriceSeriesPoint F) :=
  points.filter fun p => p.date < eventDate

theorem before_before : before eventDate (before eventDate points) = before eventDate points := by
  rw [before, before, List.filter_filter]
  simp only [Bool.and_self]

theorem sortedByDate_before (h : SortedByDate points) : SortedByDate (before eventDate points) :=
  h.sublist List.filter_sublist

theorem SortedByDate.eq_append (h : SortedByDate points) (eventDate : String) :
    before eventDate points ++ points.filter (fun p => !decide (p.date < eventDate)) = points := by
  refine Sorted.filter_append_filter_not PriceSeriesPoint.date h fun p q hle hq => ?_
  have hlt : q.date < eventDate := of_decide_eq_true hq
  exact decide_eq_true (lt_of_le_of_lt hle hlt)

/-- The search for the event stops at the end of what comes before it. -/
theorem lastBefore_eq (eventDate : String) (h : SortedByDate points) :
    lastBefore points eventDate = (before eventDate points).length - 1 := by
  have hidx : ∀ l : List (PriceSeriesPoint F), (l.findIdx fun p => eventDate ≤ p.date) =
      (l.takeWhile fun p => p.date < eventDate).length := by
    intro l
    induction l with
    | nil => rfl
    | cons p l ih =>
      rw [List.findIdx_cons, ih]
      by_cases hp : p.date < eventDate
      · rw [List.takeWhile_cons_of_pos (by simpa using hp), decide_eq_false (not_le.2 hp)]
        rfl
      · rw [List.takeWhile_cons_of_neg (by simpa using hp), decide_eq_true (not_lt.1 hp)]
        rfl
  have hfilter : (points.takeWhile fun p => p.date < eventDate) = before eventDate points := by
    refine Sorted.takeWhile_eq_filter PriceSeriesPoint.date h fun p q hle hq => ?_
    have hlt : q.date < eventDate := of_decide_eq_true hq
    exact decide_eq_true (lt_of_le_of_lt hle hlt)
  rw [lastBefore, hidx, hfilter]

theorem lastBefore_before (h : SortedByDate points) :
    lastBefore (before eventDate points) eventDate = lastBefore points eventDate := by
  rw [lastBefore_eq _ h, lastBefore_eq _ (sortedByDate_before h), before_before]

theorem getElem?_before (h : SortedByDate points) (hn : n < (before eventDate points).length) :
    points[n]? = (before eventDate points)[n]? := by
  conv_lhs => rw [← h.eq_append eventDate]
  exact List.getElem?_append_left hn

theorem take_before (h : SortedByDate points) (hn : n ≤ (before eventDate points).length) :
    points.take n = (before eventDate points).take n := by
  conv_lhs => rw [← h.eq_append eventDate]
  exact List.take_append_of_le_length hn

theorem before_pair {p q : PriceSeriesPoint F} (hp : p.date < eventDate) (hq : ¬ q.date < eventDate) :
    before eventDate [p, q] = [p] := by
  rw [before, List.filter_cons_of_pos (by simpa only [decide_eq_true_eq] using hp),
    List.filter_cons_of_neg (by simpa only [decide_eq_true_eq] using hq), List.filter_nil]

theorem length_before_le (eventDate : String) (points : List (PriceSeriesPoint F)) :
    (before eventDate points).length ≤ points.length :=
  List.length_filter_le _ _

end Before

/-! ## Returns, volumes and valuations -/

variable {F : Type} [WholeFloat F] {points points' : List (PriceSeriesPoint F)} {eventDate : String}
  {window : ℕ}

/-- The price-earnings ratios of the day of the event that count. -/
def eventDayPe (eventDate : String) (points : List (PriceSeriesPoint F)) : List F :=
  (points.filter fun p => p.date = eventDate).filterMap PriceSeriesPoint.usablePe

/-- **The return of a sorted series** is that of its points before the event. -/
theorem returnBps_before (h : SortedByDate points) :
    returnBps points eventDate window = returnBps (before eventDate points) eventDate window := by
  have hlast := lastBefore_eq eventDate h
  have hlength := length_before_le eventDate points
  rw [returnBps, returnBps, lastBefore_before h]
  by_cases hfew : (before eventDate points).length < 2
  · -- there is no second point in front of the event, however many come after it
    have hzero : lastBefore points eventDate = 0 := by omega
    rw [if_pos hfew, hzero]
    split <;> rfl
  · rw [if_neg hfew, if_neg (by omega)]
    dsimp only
    have hin : lastBefore points eventDate < (before eventDate points).length := by omega
    have hstart : lastBefore points eventDate - window < (before eventDate points).length := by omega
    rw [getElem?_before h hin, getElem?_before h hstart]

/-- **The volume** is compared before the event. -/
theorem abnormalVolumeBps_before (h : SortedByDate points) :
    abnormalVolumeBps points eventDate = abnormalVolumeBps (before eventDate points) eventDate := by
  have hlast := lastBefore_eq eventDate h
  rw [abnormalVolumeBps, abnormalVolumeBps, lastBefore_before h]
  dsimp only
  by_cases hfew : lastBefore points eventDate < 3
  · rw [if_pos hfew, if_pos hfew]
  · rw [if_neg hfew, if_neg hfew]
    have hin : lastBefore points eventDate < (before eventDate points).length := by omega
    rw [take_before h hin.le, getElem?_before h hin]

/-- **The valuation** uses the ratios before the event and those of its day. -/
theorem usable_up_to (h : SortedByDate points) :
    (points.filter fun p => p.date ≤ eventDate).filterMap PriceSeriesPoint.usablePe =
      (before eventDate points).filterMap PriceSeriesPoint.usablePe ++ eventDayPe eventDate points := by
  rw [eventDayPe, ← List.filterMap_append]
  congr 1
  conv_lhs => rw [← h.eq_append eventDate]
  rw [List.filter_append]
  congr 1
  · refine List.filter_eq_self.2 fun p hp => ?_
    have hlt : p.date < eventDate := of_decide_eq_true (List.mem_filter.1 hp).2
    exact decide_eq_true hlt.le
  · rw [List.filter_filter]
    refine List.filter_congr fun p _ => ?_
    rcases lt_trichotomy p.date eventDate with hlt | heq | hgt
    · simp [hlt, hlt.ne]
    · simp [heq]
    · simp [hgt.not_ge, hgt.ne']

theorem valuationChangeBps_congr (h : SortedByDate points) (h' : SortedByDate points')
    (hbefore : before eventDate points = before eventDate points')
    (hday : eventDayPe eventDate points = eventDayPe eventDate points') :
    valuationChangeBps points eventDate = valuationChangeBps points' eventDate := by
  rw [valuationChangeBps, valuationChangeBps, usable_up_to h, usable_up_to h', hbefore, hday]

theorem returnBps_congr (window : ℕ) (h : SortedByDate points) (h' : SortedByDate points')
    (hbefore : before eventDate points = before eventDate points') :
    returnBps points eventDate window = returnBps points' eventDate window := by
  rw [returnBps_before h, returnBps_before h', hbefore]

theorem abnormalVolumeBps_congr (h : SortedByDate points) (h' : SortedByDate points')
    (hbefore : before eventDate points = before eventDate points') :
    abnormalVolumeBps points eventDate = abnormalVolumeBps points' eventDate := by
  rw [abnormalVolumeBps_before h, abnormalVolumeBps_before h', hbefore]

/-! ## Another valuation of the day -/

/-- A point of the day of the event with a ratio. -/
def dayPoint (eventDate : String) (pe : F) : PriceSeriesPoint F where
  date := eventDate
  close := lit 1
  volume := lit 1
  peTtm := some pe

/-- The points before the event, and then six points of its day: the ratio is one in the first five
of them and `pe` in the last. -/
def revalued (eventDate : String) (pe : F) (points : List (PriceSeriesPoint F)) :
    List (PriceSeriesPoint F) :=
  before eventDate points ++ (List.replicate 5 (lit 1) ++ [pe]).map (dayPoint eventDate)

theorem sortedByDate_revalued (h : SortedByDate points) (pe : F) :
    SortedByDate (revalued eventDate pe points) := by
  refine List.pairwise_append.2 ⟨sortedByDate_before h, ?_, fun p hp q hq => ?_⟩
  · refine List.pairwise_map.2 (List.pairwise_of_forall fun _ _ => ?_)
    exact le_refl eventDate
  · obtain ⟨v, -, rfl⟩ := List.mem_map.1 hq
    have hlt : p.date < eventDate := of_decide_eq_true (List.mem_filter.1 hp).2
    exact hlt.le

theorem before_revalued (pe : F) :
    before eventDate (revalued eventDate pe points) = before eventDate points := by
  have hday : before eventDate ((List.replicate 5 (lit 1) ++ [pe]).map (dayPoint eventDate)) = [] := by
    refine List.filter_eq_nil_iff.2 fun p hp => ?_
    obtain ⟨v, -, rfl⟩ := List.mem_map.1 hp
    have hsame : ¬ eventDate < eventDate := lt_irrefl _
    exact fun h => hsame (of_decide_eq_true h)
  rw [revalued, before, List.filter_append]
  change before eventDate (before eventDate points) ++ before eventDate _ = _
  rw [hday, List.append_nil, before_before]

theorem eventDayPe_revalued (points : List (PriceSeriesPoint F)) (eventDate : String) {pe : F}
    (hfinite : isFinite pe) (hpos : lit 0 < pe) :
    eventDayPe eventDate (revalued eventDate pe points) = List.replicate 5 (lit 1) ++ [pe] := by
  have hone : isFinite (lit 1 : F) ∧ (lit 0 : F) < lit 1 := by
    have hfin := finite_nat (F := F) 1 (by omega)
    have hlt := pos_nat (F := F) 1 (by omega) (by omega)
    rw [Nat.cast_one] at hfin hlt
    exact ⟨hfin, hlt⟩
  have hbefore : (before eventDate points).filter (fun p => p.date = eventDate) = [] := by
    refine List.filter_eq_nil_iff.2 fun p hp heq => ?_
    have hlt : p.date < eventDate := of_decide_eq_true (List.mem_filter.1 hp).2
    exact hlt.ne (of_decide_eq_true heq)
  have husable : ∀ v ∈ List.replicate 5 (lit 1) ++ [pe], (dayPoint eventDate v).usablePe = some v := by
    intro v hv
    have hv' : isFinite v ∧ lit 0 < v := by
      rcases List.mem_append.1 hv with hv | hv
      · rw [(List.mem_replicate.1 hv).2]
        exact hone
      · rw [List.mem_singleton.1 hv]
        exact ⟨hfinite, hpos⟩
    simp [PriceSeriesPoint.usablePe, dayPoint, hv'.1, hv'.2]
  rw [eventDayPe, revalued, List.filter_append, hbefore, List.nil_append, List.filter_map,
    List.filterMap_map]
  have hall : (List.replicate 5 (lit 1) ++ [pe]).filter
      ((fun p : PriceSeriesPoint F => decide (p.date = eventDate)) ∘ dayPoint eventDate) =
      List.replicate 5 (lit 1) ++ [pe] :=
    List.filter_eq_self.2 fun _ _ => decide_eq_true rfl
  rw [hall]
  have hcongr := List.filterMap_congr (f := PriceSeriesPoint.usablePe ∘ dayPoint eventDate)
    (g := some) husable
  rw [hcongr, List.filterMap_some]

/-- **The valuation follows the ratio of the day.** -/
theorem valuationChangeBps_revalued (eventDate : String) (n : ℕ) (h : SortedByDate points)
    (hn : n + 1 ≤ 2 ^ 53) (hscale : n * 10000 ≤ 2 ^ 53) :
    valuationChangeBps (revalued eventDate (lit ((n + 1 : ℕ) : ℚ)) points) eventDate =
      some (n * 10000 : ℤ) := by
  have hday := eventDayPe_revalued points eventDate
    (finite_nat (F := F) (n + 1) hn) (pos_nat (F := F) (n + 1) (by omega) hn)
  rw [valuationChangeBps, usable_up_to (sortedByDate_revalued h _), before_revalued, hday]
  set ratios := (before eventDate points).filterMap PriceSeriesPoint.usablePe
  set pe : F := lit ((n + 1 : ℕ) : ℚ)
  have hlength : (ratios ++ (List.replicate 5 (lit 1) ++ [pe])).length = ratios.length + 6 := by
    rw [List.length_append, List.length_append, List.length_replicate, List.length_singleton]
  have hlast : (ratios ++ (List.replicate 5 (lit 1) ++ [pe])).getLast? = some pe := by
    rw [← List.append_assoc, List.getLast?_concat]
  have hstart : (ratios ++ (List.replicate 5 (lit 1) ++ [pe]))[ratios.length]? = some (lit 1) := by
    rw [List.getElem?_append_right le_rfl, Nat.sub_self]
    rfl
  rw [if_neg (by omega), hlast, hlength, Nat.add_sub_cancel, hstart]
  change some (changeBps (lit 1) pe) = _
  have hchange : toI64 (round ((pe / lit 1 - lit 1) * lit ((10000 : ℕ) : ℚ))) = n * (10000 : ℕ) :=
    scaled_excess hscale hn
  rw [changeBps]
  exact congrArg some hchange

/-! ## Inputs that agree before the event -/

/-- Two inputs are equal but for points on or after the day of the event. -/
structure PriceInInput.SameBefore (i j : PriceInInput F) : Prop where
  event : i.event = j.event
  securityCode : i.securityCode = j.securityCode
  eventDate : i.eventDate = j.eventDate
  asOfDate : i.asOfDate = j.asOfDate
  stock : before i.eventDate i.stock = before i.eventDate j.stock
  benchmark : before i.eventDate i.benchmark = before i.eventDate j.benchmark
  sector : before i.eventDate i.sector = before i.eventDate j.sector
  valuation : before i.eventDate i.valuation = before i.eventDate j.valuation
  structuredImpactBps : i.structuredImpactBps = j.structuredImpactBps
  consensusImpactBps : i.consensusImpactBps = j.consensusImpactBps
  historicalAnalogs : i.historicalAnalogs = j.historicalAnalogs
  dataVersions : i.dataVersions = j.dataVersions

structure PriceInInput.Sorted (i : PriceInInput F) : Prop where
  stock : SortedByDate i.stock
  benchmark : SortedByDate i.benchmark
  sector : SortedByDate i.sector
  valuation : SortedByDate i.valuation

structure EventStudyInput.SameBefore (i j : EventStudyInput F) : Prop where
  event : i.event = j.event
  securityCode : i.securityCode = j.securityCode
  eventDate : i.eventDate = j.eventDate
  stock : before i.eventDate i.stock = before i.eventDate j.stock
  benchmark : before i.eventDate i.benchmark = before i.eventDate j.benchmark
  valuation : before i.eventDate i.valuation = before i.eventDate j.valuation
  postWindowDays : i.postWindowDays = j.postWindowDays
  dataVersion : i.dataVersion = j.dataVersion

structure EventStudyInput.Sorted (i : EventStudyInput F) : Prop where
  stock : SortedByDate i.stock
  benchmark : SortedByDate i.benchmark
  valuation : SortedByDate i.valuation

/-- The part of an assessment that says how far the event is priced in. -/
def EventMarketAssessment.priceIn (a : EventMarketAssessment) :
    PriceInDiagnostics × Option ℤ × String × List String :=
  (a.diagnostics, a.marketOpportunity.priceInScore, a.marketOpportunity.priceInState, a.missingInputs)

/-- What a sample says of the market before the event. -/
def EventStudySample.preEvent (sample : EventStudySample) : Option ℤ × Option ℤ × Option ℤ :=
  (sample.preAbnormalReturnBps, sample.abnormalVolumeBps, sample.valuationChangeBps)

variable {validDate : String → Bool} {shortHash : String → String} {now : ℤ}

/-- An analysis that is not made for want of a code or a date. -/
def PriceInInput.Rejected (validDate : String → Bool) (i : PriceInInput F) : Prop :=
  Text.trim i.securityCode = "" ∨ validDate i.eventDate = false

/-- **The analysis** is a function of what comes before the event and of the ratios of its day. -/
theorem analyzePriceIn_congr {i j : PriceInInput F} (hi : i.Sorted) (hj : j.Sorted)
    (hsame : i.SameBefore j)
    (hday : eventDayPe i.eventDate i.valuation = eventDayPe i.eventDate j.valuation) :
    analyzePriceIn validDate shortHash now i = analyzePriceIn validDate shortHash now j := by
  have hstock := returnBps_congr 5 hi.stock hj.stock hsame.stock
  have hbenchmark := returnBps_congr 5 hi.benchmark hj.benchmark hsame.benchmark
  have hsector := returnBps_congr 5 hi.sector hj.sector hsame.sector
  have hvolume := abnormalVolumeBps_congr hi.stock hj.stock hsame.stock
  have hvaluation := valuationChangeBps_congr hi.valuation hj.valuation hsame.valuation hday
  simp only [analyzePriceIn, ← hsame.event, ← hsame.securityCode, ← hsame.eventDate,
    ← hsame.asOfDate, ← hsame.structuredImpactBps, ← hsame.consensusImpactBps,
    ← hsame.historicalAnalogs, ← hsame.dataVersions, ← hstock, ← hbenchmark, ← hsector, ← hvolume,
    ← hvaluation]

theorem analyzePriceIn_rejected {i : PriceInInput F} (h : i.Rejected validDate) :
    analyzePriceIn validDate shortHash now i =
      .error (.invalid "price-in 必须提供证券代码和 YYYY-MM-DD 事件日") := by
  rw [analyzePriceIn, if_pos]
  rcases h with h | h
  · simp [h]
  · simp [h]

theorem analyzePriceIn_accepted (shortHash : String → String) (now : ℤ) {i : PriceInInput F}
    (h : ¬ i.Rejected validDate) :
    ∃ a, analyzePriceIn validDate shortHash now i = .ok a ∧
      a.diagnostics.valuationChangeBps = valuationChangeBps i.valuation i.eventDate := by
  have hcond : ¬((decide (Text.trim i.securityCode = "") || !validDate i.eventDate) = true) := by
    intro hor
    refine h ?_
    rcases Bool.or_eq_true_iff.1 hor with hcode | hdate
    · exact .inl (of_decide_eq_true hcode)
    · exact .inr (by simpa using hdate)
  rw [analyzePriceIn, if_neg hcond]
  exact ⟨_, rfl, rfl⟩

/-- **A sample** is made whether or not the valuation says anything, and takes its change over. -/
theorem buildEventStudySample_valuation (shortHash : String → String) (now : ℤ)
    (i : EventStudyInput F) (valuation : List (PriceSeriesPoint F)) :
    buildEventStudySample shortHash now { i with valuation := valuation } =
      (buildEventStudySample shortHash now i).map fun sample =>
        { sample with valuationChangeBps := valuationChangeBps valuation i.eventDate } := by
  rw [buildEventStudySample, buildEventStudySample]
  cases i.stock.findIdx? fun p => i.eventDate ≤ p.date with
  | none => rfl
  | some eventIndex =>
    simp only [Option.bind_eq_bind, Option.bind_some]
    split
    · rfl
    cases postChange i.stock eventIndex i.postWindowDays with
    | none => rfl
    | some stockPost =>
      simp only [Option.bind_some]
      cases i.benchmark.findIdx? fun p => i.eventDate ≤ p.date with
      | none => rfl
      | some benchmarkIndex =>
        simp only [Option.bind_some]
        split
        · rfl
        cases postChange i.benchmark benchmarkIndex i.postWindowDays <;> rfl

theorem preEvent_eq {i : EventStudyInput F} {sample : EventStudySample}
    (h : buildEventStudySample shortHash now i = some sample) :
    sample.preEvent =
      (difference (returnBps i.stock i.eventDate 5) (returnBps i.benchmark i.eventDate 5),
        abnormalVolumeBps i.stock i.eventDate, valuationChangeBps i.valuation i.eventDate) := by
  rw [buildEventStudySample] at h
  obtain ⟨eventIndex, -, h⟩ := Option.bind_eq_some_iff.1 h
  split at h
  · cases h
  obtain ⟨stockPost, -, h⟩ := Option.bind_eq_some_iff.1 h
  obtain ⟨benchmarkIndex, -, h⟩ := Option.bind_eq_some_iff.1 h
  split at h
  · cases h
  obtain ⟨benchmarkPost, -, h⟩ := Option.bind_eq_some_iff.1 h
  obtain rfl := Option.some.inj h
  rfl

/-- Two inputs are priced in alike. -/
def PriceInInput.Alike (validDate : String → Bool) (shortHash : String → String) (now : ℤ)
    (i j : PriceInInput F) : Prop :=
  (analyzePriceIn validDate shortHash now i).map EventMarketAssessment.priceIn =
    (analyzePriceIn validDate shortHash now j).map EventMarketAssessment.priceIn

/-- The samples of two inputs, where there are both, say the same of the market before the event. -/
def EventStudyInput.Alike (shortHash : String → String) (now : ℤ) (i j : EventStudyInput F) : Prop :=
  ∀ sample sample', buildEventStudySample shortHash now i = some sample →
    buildEventStudySample shortHash now j = some sample' → sample.preEvent = sample'.preEvent

theorem preEvent_congr {i j : EventStudyInput F} (hi : i.Sorted) (hj : j.Sorted)
    (hsame : i.SameBefore j)
    (hday : eventDayPe i.eventDate i.valuation = eventDayPe i.eventDate j.valuation) :
    i.Alike shortHash now j := by
  intro sample sample' hsample hsample'
  rw [preEvent_eq hsample, preEvent_eq hsample', ← hsame.eventDate,
    returnBps_congr 5 hi.stock hj.stock hsame.stock,
    returnBps_congr 5 hi.benchmark hj.benchmark hsame.benchmark,
    abnormalVolumeBps_congr hi.stock hj.stock hsame.stock,
    valuationChangeBps_congr hi.valuation hj.valuation hsame.valuation hday]

/-- The input with another valuation of the day. -/
def PriceInInput.revalue (i : PriceInInput F) (pe : F) : PriceInInput F :=
  { i with valuation := revalued i.eventDate pe i.valuation }

theorem PriceInInput.Sorted.revalue {i : PriceInInput F} (h : i.Sorted) (pe : F) :
    (i.revalue pe).Sorted :=
  { h with valuation := sortedByDate_revalued h.valuation pe }

theorem PriceInInput.sameBefore_revalue (i : PriceInInput F) (pe : F) :
    i.SameBefore (i.revalue pe) where
  event := rfl
  securityCode := rfl
  eventDate := rfl
  asOfDate := rfl
  stock := rfl
  benchmark := rfl
  sector := rfl
  valuation := (before_revalued pe).symm
  structuredImpactBps := rfl
  consensusImpactBps := rfl
  historicalAnalogs := rfl
  dataVersions := rfl

def EventStudyInput.revalue (i : EventStudyInput F) (pe : F) : EventStudyInput F :=
  { i with valuation := revalued i.eventDate pe i.valuation }

theorem EventStudyInput.Sorted.revalue {i : EventStudyInput F} (h : i.Sorted) (pe : F) :
    (i.revalue pe).Sorted :=
  { h with valuation := sortedByDate_revalued h.valuation pe }

theorem EventStudyInput.sameBefore_revalue (i : EventStudyInput F) (pe : F) :
    i.SameBefore (i.revalue pe) where
  event := rfl
  securityCode := rfl
  eventDate := rfl
  stock := rfl
  benchmark := rfl
  valuation := (before_revalued pe).symm
  postWindowDays := rfl
  dataVersion := rfl

/-- An accepted input is not priced in alike under two valuations of the day. -/
theorem PriceInInput.not_alike {i : PriceInInput F} (hi : i.Sorted) (h : ¬ i.Rejected validDate) :
    ¬((i.Alike validDate shortHash now (i.revalue (lit ((0 + 1 : ℕ) : ℚ)))) ∧
      i.Alike validDate shortHash now (i.revalue (lit ((1 + 1 : ℕ) : ℚ)))) := by
  rintro ⟨hsame, hdouble⟩
  have halike := hsame.symm.trans hdouble
  obtain ⟨a, ha, hvalue⟩ := analyzePriceIn_accepted shortHash now
    (show ¬ (i.revalue (lit ((0 + 1 : ℕ) : ℚ))).Rejected validDate from h)
  obtain ⟨b, hb, hvalue'⟩ := analyzePriceIn_accepted shortHash now
    (show ¬ (i.revalue (lit ((1 + 1 : ℕ) : ℚ))).Rejected validDate from h)
  have hzero := valuationChangeBps_revalued i.eventDate 0 hi.valuation
    (by omega) (by omega)
  have hone := valuationChangeBps_revalued i.eventDate 1 hi.valuation
    (by omega) (by omega)
  rw [ha, hb] at halike
  have hdiagnostics : a.diagnostics = b.diagnostics := congrArg Prod.fst (Except.ok.inj halike)
  have hchange : (some (((0 : ℕ) : ℤ) * 10000) : Option ℤ) = some (((1 : ℕ) : ℤ) * 10000) := by
    rw [← hzero, ← hone]
    exact hvalue.symm.trans ((congrArg _ hdiagnostics).trans hvalue')
  exact absurd hchange (by decide)

theorem EventStudyInput.not_alike {i : EventStudyInput F} (hi : i.Sorted)
    (h : buildEventStudySample shortHash now i ≠ none) :
    ¬((i.Alike shortHash now (i.revalue (lit ((0 + 1 : ℕ) : ℚ)))) ∧
      i.Alike shortHash now (i.revalue (lit ((1 + 1 : ℕ) : ℚ)))) := by
  rintro ⟨hsame, hdouble⟩
  obtain ⟨sample, hsample⟩ := Option.ne_none_iff_exists'.1 h
  have hzero := valuationChangeBps_revalued i.eventDate 0 hi.valuation
    (by omega) (by omega)
  have hone := valuationChangeBps_revalued i.eventDate 1 hi.valuation
    (by omega) (by omega)
  have hfirst := buildEventStudySample_valuation shortHash now i
    (revalued i.eventDate (lit ((0 + 1 : ℕ) : ℚ)) i.valuation)
  have hsecond := buildEventStudySample_valuation shortHash now i
    (revalued i.eventDate (lit ((1 + 1 : ℕ) : ℚ)) i.valuation)
  rw [hsample, Option.map_some, hzero] at hfirst
  rw [hsample, Option.map_some, hone] at hsecond
  have halike := (hsame _ _ hsample hfirst).symm.trans (hdouble _ _ hsample hsecond)
  have hchange : (some (((0 : ℕ) : ℤ) * 10000) : Option ℤ) = some (((1 : ℕ) : ℤ) * 10000) :=
    congrArg (fun fields => fields.2.2) halike
  exact absurd hchange (by decide)

/-- **What follows an event.** Inputs that agree before the event are priced in alike when the
price-earnings ratios of its day that count are the same; but every input that is accepted is priced
in otherwise than some input that it agrees with before the event, and so is every sample. -/
theorem priceIn_uses_event_day (validDate : String → Bool) (shortHash : String → String) (now : ℤ) :
    (∀ i j : PriceInInput F, i.Sorted → j.Sorted → i.SameBefore j →
      eventDayPe i.eventDate i.valuation = eventDayPe i.eventDate j.valuation →
      i.Alike validDate shortHash now j) ∧
    (∀ i : PriceInInput F, i.Sorted →
      ((∀ j, j.Sorted → i.SameBefore j → i.Alike validDate shortHash now j) ↔
        i.Rejected validDate)) ∧
    (∀ i j : EventStudyInput F, i.Sorted → j.Sorted → i.SameBefore j →
      eventDayPe i.eventDate i.valuation = eventDayPe i.eventDate j.valuation →
      i.Alike shortHash now j) ∧
    ∀ i : EventStudyInput F, i.Sorted →
      ((∀ j, j.Sorted → i.SameBefore j → i.Alike shortHash now j) ↔
        buildEventStudySample shortHash now i = none) := by
  refine ⟨fun i j hi hj hsame hday => ?_, fun i hi => ⟨fun h => ?_, fun h j _ hsame => ?_⟩,
    fun i j hi hj hsame hday => preEvent_congr hi hj hsame hday,
    fun i hi => ⟨fun h => ?_, fun h j _ _ sample sample' hsample => ?_⟩⟩
  · exact congrArg _ (analyzePriceIn_congr hi hj hsame hday)
  · by_contra hrejected
    exact PriceInInput.not_alike hi hrejected
      ⟨h _ (hi.revalue _) (i.sameBefore_revalue _), h _ (hi.revalue _) (i.sameBefore_revalue _)⟩
  · have hj : j.Rejected validDate := by
      rw [PriceInInput.Rejected, ← hsame.securityCode, ← hsame.eventDate]
      exact h
    rw [PriceInInput.Alike, analyzePriceIn_rejected h, analyzePriceIn_rejected hj]
  · by_contra hsome
    exact EventStudyInput.not_alike hi hsome
      ⟨h _ (hi.revalue _) (i.sameBefore_revalue _), h _ (hi.revalue _) (i.sameBefore_revalue _)⟩
  · rw [h] at hsample
    cases hsample

/-- An order that a company wins, with the valuation of the day before and of the day itself. -/
def orderWon (pe : ℚ) : PriceInInput ℚ where
  event :=
    { eventId := "sevt:1", sourceRevisionId := "rev:1", kind := .order, title := "中标", subjects := [],
      objects := [], amountText := none, quantityText := none, unitOriginal := none,
      currencyOriginal := none, baselinePeriod := none, startsAt := none, endsAt := none,
      region := none, conditions := [], officialEffective := none, reversibility := .conditional,
      impactHorizon := .year, lifecycle := .confirmed, catalystPath := [], validationDates := [],
      invalidationConditions := [], missingFields := [], evidence := [],
      extractionVersion := "evidence-event-v1", createdAt := 0, updatedAt := 0 }
  securityCode := "600000"
  eventDate := "2026-08-30"
  asOfDate := "2026-08-30"
  stock := []
  benchmark := []
  sector := []
  valuation :=
    [{ date := "2026-08-29", close := 10, volume := 100, peTtm := some 20 },
      { date := "2026-08-30", close := 10, volume := 100, peTtm := some pe }]
  structuredImpactBps := some 800
  consensusImpactBps := some 700
  historicalAnalogs := [{ sampleId := "a", postAbnormalReturnBps := 300 }]
  dataVersions := .null

/-- When the ratio of the day doubles, the score rises from 33 to 48. -/
theorem valuation_of_the_day_counts :
    ((analyzePriceIn (fun _ => true) id 0 (orderWon 20)).map
        fun a => (a.diagnostics.valuationChangeBps, a.marketOpportunity.priceInScore)).toOption =
      some (some 0, some 33) ∧
    ((analyzePriceIn (fun _ => true) id 0 (orderWon 40)).map
        fun a => (a.diagnostics.valuationChangeBps, a.marketOpportunity.priceInScore)).toOption =
      some (some 10000, some 48) ∧
    ¬ ∀ i j : PriceInInput ℚ, i.Sorted → j.Sorted → i.SameBefore j →
      i.Alike (fun _ => true) id 0 j := by
  have hlow : ((analyzePriceIn (fun _ => true) id 0 (orderWon 20)).map
      fun a => (a.diagnostics.valuationChangeBps, a.marketOpportunity.priceInScore)).toOption =
        some (some 0, some 33) := by decide +kernel
  have hhigh : ((analyzePriceIn (fun _ => true) id 0 (orderWon 40)).map
      fun a => (a.diagnostics.valuationChangeBps, a.marketOpportunity.priceInScore)).toOption =
        some (some 10000, some 48) := by decide +kernel
  refine ⟨hlow, hhigh, fun h => ?_⟩
  have hsorted : ∀ pe, (orderWon pe).Sorted := by
    intro pe
    refine ⟨List.Pairwise.nil, List.Pairwise.nil, List.Pairwise.nil, ?_⟩
    have hle : ("2026-08-29" : String) ≤ "2026-08-30" := by decide
    exact List.pairwise_pair.2 hle
  have hbefore : ∀ pe, before "2026-08-30" (orderWon pe).valuation =
      [{ date := "2026-08-29", close := 10, volume := 100, peTtm := some 20 }] := fun pe =>
    before_pair (show "2026-08-29" < "2026-08-30" by decide) (lt_irrefl "2026-08-30")
  have halike := h (orderWon 20) (orderWon 40) (hsorted 20) (hsorted 40)
    ⟨rfl, rfl, rfl, rfl, rfl, rfl, rfl, (hbefore 20).trans (hbefore 40).symm, rfl, rfl, rfl, rfl⟩
  have hscore : ∀ result : Except EventError EventMarketAssessment,
      (result.map EventMarketAssessment.priceIn).toOption.map (fun view => view.2.1) =
        (result.map fun a => (a.diagnostics.valuationChangeBps,
          a.marketOpportunity.priceInScore)).toOption.map Prod.snd := by
    intro result
    cases result <;> rfl
  have hsame := congrArg (fun result => result.toOption.map fun view => view.2.1) halike
  rw [hscore, hscore, hlow, hhigh] at hsame
  exact absurd hsame (by decide)

end Astock.EventIntelligence
