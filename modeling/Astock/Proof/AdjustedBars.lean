import Astock.Lib.Dated
import Astock.Spec.Adjust

/-!
# Adjusted bars

## The factors of corporate actions

* `actionFactors_take`: **the factors up to a bar depend on the bars up to it alone**: they are those
  computed on these bars as of its date.
* `actionFactors_sorted`: factors come in the order of their dates.
* `factor_pos`, `factor_after`: in exact arithmetic a factor is positive, and is dated after the
  first bar.
-/

namespace Astock

open Float64 Sorted

variable {F : Type} [Float64 F] {bars : List (CoreBar F)} {actions : List (CorporateAction F)}
  {asOf : ℤ} {cutoff : Option ℤ} {action : CorporateAction F} {d : ℤ} {r : F}

/-- **What gives an action its factor**: the last close before its date, which is positive. -/
theorem actionFactor_eq_some (h : (actionFactor bars action).1 = some (d, r)) :
    d = action.exDate ∧ ∃ i prev, partitionPoint (fun b => b.date < action.exDate) bars = i + 1 ∧
      bars[i]? = some prev ∧ ¬prev.close ≤ lit 0 ∧
      ∃ x : F, ¬x ≤ lit 0 ∧ r = x / prev.close := by
  rw [actionFactor] at h
  cases hi : partitionPoint (fun b => decide (b.date < action.exDate)) bars with
  | zero => simp [hi] at h
  | succ i =>
    cases hprev : bars[i]? with
    | none => simp [hi, hprev] at h
    | some prev =>
      simp only [hi, hprev] at h
      split at h
      · cases h
      · rename_i hc
        split at h
        · cases h
        · rename_i hx
          cases h
          exact ⟨rfl, i, prev, rfl, hprev, hc, _, hx, rfl⟩

theorem mem_actionFactors {p : ℤ × F} (h : p ∈ (actionFactors bars actions asOf cutoff).1) :
    ∃ action ∈ knownActions actions asOf cutoff, (actionFactor bars action).1 = some p := by
  obtain ⟨round, hround, hp⟩ := List.mem_filterMap.1 h
  obtain ⟨action, haction, rfl⟩ := List.mem_map.1 hround
  exact ⟨action, haction, hp⟩

/-- The factors are those of the known actions, in their order. -/
theorem actionFactors_fst : (actionFactors bars actions asOf cutoff).1 =
    (knownActions actions asOf cutoff).filterMap fun a => (actionFactor bars a).1 := by
  rw [actionFactors, List.filterMap_map]
  rfl

/-- Factors come in the order of their dates. -/
theorem actionFactors_sorted (bars : List (CoreBar F)) (actions : List (CorporateAction F)) (asOf : ℤ)
    (cutoff : Option ℤ) :
    (actionFactors bars actions asOf cutoff).1.Pairwise fun p q => p.1 ≤ q.1 := by
  rw [actionFactors_fst, List.pairwise_filterMap]
  refine (sortByKey_pairwise CorporateAction.exDate _).imp ?_
  intro a b hab p hp q hq
  obtain ⟨hp, -⟩ := actionFactor_eq_some (d := p.1) (r := p.2) hp
  obtain ⟨hq, -⟩ := actionFactor_eq_some (d := q.1) (r := q.2) hq
  rw [hp, hq]
  exact hab

theorem knownActions_filter (hd : d ≤ asOf) :
    (knownActions actions asOf cutoff).filter (·.exDate ≤ d) = knownActions actions d cutoff := by
  rw [knownActions, filter_sortByKey, knownActions]
  congr 1
  rw [List.filter_filter, List.filter_filter, List.filter_filter]
  refine List.filter_congr fun a _ => ?_
  have hle : (decide (a.exDate ≤ d) && decide (a.exDate ≤ asOf)) = decide (a.exDate ≤ d) := by
    by_cases h : a.exDate ≤ d
    · simp [h, h.trans hd]
    · simp [h]
  rw [Bool.and_right_comm, hle, Bool.and_comm]

/-- The factor of an action that is not after a bar depends on the bars up to this bar alone. -/
theorem actionFactor_take {t : ℕ} {bar : CoreBar F} (hbar : bars[t]? = some bar)
    (hle : action.exDate ≤ bar.date) : actionFactor (bars.take (t + 1)) action =
      actionFactor bars action := by
  have hwhile : (bars.take (t + 1)).takeWhile (fun b => b.date < action.exDate) =
      bars.takeWhile fun b => b.date < action.exDate :=
    takeWhile_take hbar (by simpa using hle)
  have hpoint : partitionPoint (fun b => b.date < action.exDate) (bars.take (t + 1)) =
      partitionPoint (fun b => b.date < action.exDate) bars := congrArg List.length hwhile
  rw [actionFactor, actionFactor, hpoint]
  cases hi : partitionPoint (fun b => decide (b.date < action.exDate)) bars with
  | zero => rfl
  | succ i =>
    -- the search stops at `bar` at the latest, so the close it reads is not after it
    have hit : i < t + 1 := by
      have hlen : ((bars.take (t + 1)).takeWhile fun b => b.date < action.exDate).length ≤
          (bars.take (t + 1)).length := (List.takeWhile_prefix _).length_le
      rw [hwhile] at hlen
      have hle := hlen.trans (List.length_take_le _ _)
      rw [partitionPoint] at hi
      omega
    simp only [List.getElem?_take_of_lt hit]

/-- **The factors up to a bar** are those of the bars up to it, as of its date. -/
theorem actionFactors_take (actions : List (CorporateAction F)) (cutoff : Option ℤ) {t : ℕ}
    {bar : CoreBar F} (hbar : bars[t]? = some bar) (hd : bar.date ≤ asOf) :
    (actionFactors bars actions asOf cutoff).1.filter (·.1 ≤ bar.date) =
      (actionFactors (bars.take (t + 1)) actions bar.date cutoff).1 := by
  rw [actionFactors_fst, actionFactors_fst, List.filter_filterMap, ← knownActions_filter hd,
    List.filterMap_filter]
  refine List.filterMap_congr fun a _ => ?_
  by_cases hle : a.exDate ≤ bar.date
  · rw [actionFactor_take hbar hle]
    cases h : (actionFactor bars a).1 with
    | none => simp
    | some p =>
      obtain ⟨hp, -⟩ := actionFactor_eq_some (d := p.1) (r := p.2) h
      simp [hp, hle]
  · cases h : (actionFactor bars a).1 with
    | none => simp [hle]
    | some p =>
      obtain ⟨hp, -⟩ := actionFactor_eq_some (d := p.1) (r := p.2) h
      simpa [hp, hle] using not_le.1 hle

/-- A sorted list of factors splits at a date. -/
theorem split_at_date {factors : List (ℤ × F)} (h : factors.Pairwise fun p q => p.1 ≤ q.1) (d : ℤ) :
    factors = factors.filter (·.1 ≤ d) ++ factors.filter fun p => d < p.1 := by
  have hp : ∀ a b : ℤ × F, a.1 ≤ b.1 → decide (b.1 ≤ d) = true → decide (a.1 ≤ d) = true := by
    intro a b hab hb
    exact decide_eq_true (hab.trans (of_decide_eq_true hb))
  have hneg : factors.filter (fun p => !decide (p.1 ≤ d)) = factors.filter fun p => d < p.1 :=
    List.filter_congr fun p _ => by rw [← decide_not, decide_eq_decide, not_le]
  rw [← hneg]
  exact (filter_append_filter_not Prod.fst h hp).symm

/-! ### Exact arithmetic -/

section Exact

variable {bars : List (CoreBar ℚ)} {actions : List (CorporateAction ℚ)} {p : ℤ × ℚ}

/-- A factor is positive. -/
theorem factor_pos (h : p ∈ (actionFactors bars actions asOf cutoff).1) : 0 < p.2 := by
  obtain ⟨action, -, hp⟩ := mem_actionFactors h
  obtain ⟨-, i, prev, -, -, hclose, x, hx, hr⟩ := actionFactor_eq_some (d := p.1) (r := p.2) hp
  rw [lit_exact, not_le] at hclose hx
  rw [hr]
  exact div_pos hx hclose

/-- A factor is dated after the first bar. -/
theorem factor_after {first : CoreBar ℚ} (hfirst : bars.head? = some first)
    (h : p ∈ (actionFactors bars actions asOf cutoff).1) : first.date < p.1 := by
  obtain ⟨action, -, hp⟩ := mem_actionFactors h
  obtain ⟨hd, i, prev, hi, -⟩ := actionFactor_eq_some (d := p.1) (r := p.2) hp
  rw [hd]
  cases bars with
  | nil => cases hfirst
  | cons b rest =>
    obtain rfl : b = first := Option.some.inj hfirst
    by_contra hlt
    rw [partitionPoint, List.takeWhile_cons_of_neg (by simpa using hlt)] at hi
    cases hi

end Exact

end Astock

/-!
## Adjusted bars in exact arithmetic

* `barFactor_eq`, `computeQfq_prices`: a forward-adjusted price is the raw price times the factors
  after its date.
* `hfq_keeps_history`: **backward adjustment never rewrites history**: a price is the raw price
  divided by the factors up to its date, whatever bars follow.
-/

namespace Astock

open Float64 Sorted

/-- The four prices of a bar. -/
structure Prices (F : Type) where
  openPrice : F
  close : F
  high : F
  low : F
  deriving DecidableEq

def CoreBar.prices {F : Type} (b : CoreBar F) : Prices F := ⟨b.openPrice, b.close, b.high, b.low⟩

def Prices.map {F : Type} (f : F → F) (p : Prices F) : Prices F :=
  ⟨f p.openPrice, f p.close, f p.high, f p.low⟩

variable {bars : List (CoreBar ℚ)} {actions : List (CorporateAction ℚ)} {cutoff : Option ℤ}
  {factors : List (ℤ × ℚ)} {bar first last : CoreBar ℚ}

/-! ### Forward adjustment -/

theorem suffixProduct_eq (factors : List (ℤ × ℚ)) :
    suffixProduct factors = (factors.map Prod.snd).prod := by
  induction factors with
  | nil => rfl
  | cons p rest ih => rw [suffixProduct, ih, List.map_cons, List.prod_cons, mul_comm]

/-- The factor of a bar is the product of the factors after its date. -/
theorem barFactor_eq (h : factors.Pairwise fun p q => p.1 ≤ q.1) (bar : CoreBar ℚ) :
    barFactor factors bar = Dated.after bar.date factors := by
  rw [barFactor, suffixProduct_eq, drop_partitionPoint Prod.fst h, Dated.after]
  · congr 2
    refine List.filter_congr fun p _ => ?_
    rw [← decide_not, decide_eq_decide, not_le]
  · intro p q hpq hq
    exact decide_eq_true (hpq.trans (of_decide_eq_true hq))

theorem scaleBar_prices (bar : CoreBar ℚ) (factor : ℚ) (prev : Option ℚ) (keepPct : Bool) :
    (scaleBar bar factor prev keepPct).prices = bar.prices.map (· * factor) := by
  cases keepPct <;> rfl

theorem scaleBars_prices (factors : List (ℤ × ℚ)) (bars : List (CoreBar ℚ)) :
    ∀ (prevFactor : ℚ) (prevClose : Option ℚ),
    (scaleBars factors prevFactor prevClose bars).map CoreBar.prices =
      bars.map fun b => b.prices.map (· * barFactor factors b) := by
  induction bars with
  | nil => intro _ _; rfl
  | cons bar rest ih =>
    intro prevFactor prevClose
    rw [scaleBars, List.map_cons, List.map_cons, scaleBar_prices, ih]

theorem Prices.map_mul_one (p : Prices ℚ) : p.map (· * 1) = p := by
  simp only [Prices.map, mul_one]

/-- **Forward-adjusted prices**: the raw price times the factor of the bar. -/
theorem computeQfq_prices (bars : List (CoreBar ℚ)) (actions : List (CorporateAction ℚ)) (anchor : ℤ)
    (cutoff : Option ℤ) : (computeQfq bars actions anchor cutoff).bars.map CoreBar.prices =
      bars.map fun b => b.prices.map
        (· * Dated.after b.date (actionFactors bars actions anchor cutoff).1) := by
  have hfactor := barFactor_eq (actionFactors_sorted bars actions anchor cutoff)
  rw [computeQfq]
  dsimp only
  split
  · rename_i hall
    refine List.map_congr_left fun b hb => ?_
    have hone := List.all_eq_true.1 hall b hb
    rw [beq_iff_eq, lit_exact, hfactor] at hone
    rw [hone, Prices.map_mul_one]
  · rw [scaleBars_prices]
    simp only [hfactor]

/-! ### Backward adjustment -/

theorem rescaleBars_prices (scale : ℚ) (bars : List (CoreBar ℚ)) : ∀ prevClose : Option ℚ,
    (rescaleBars scale prevClose bars).map CoreBar.prices =
      bars.map fun b => b.prices.map (· * scale) := by
  induction bars with
  | nil => intro _; rfl
  | cons bar rest ih =>
    intro prevClose
    rw [rescaleBars, List.map_cons, List.map_cons, scaleBar_prices, ih]

/-- **Backward-adjusted prices**: the raw price divided by the factors up to the bar. -/
theorem computeHfq_prices (actions : List (CorporateAction ℚ)) (cutoff : Option ℤ)
    (hsorted : bars.Pairwise fun a b => a.date ≤ b.date)
    (hfirst : bars.head? = some first) (hlast : bars.getLast? = some last) (hpos : 0 < first.close) :
    (computeHfq bars actions cutoff).bars.map CoreBar.prices = bars.map fun b => b.prices.map
      (· / Dated.within first.date b.date (actionFactors bars actions last.date cutoff).1) := by
  set factors := (actionFactors bars actions last.date cutoff).1 with hfactors
  have hqfq : (computeQfq bars actions last.date cutoff).bars.map CoreBar.prices =
      bars.map fun b => b.prices.map (· * Dated.after b.date factors) :=
    computeQfq_prices bars actions last.date cutoff
  have hafter : ∀ d, 0 < Dated.after d factors := fun d => Dated.after_pos fun p hp => factor_pos hp
  -- the first adjusted close
  obtain ⟨adjusted, hadjusted, hclose⟩ : ∃ adjusted,
      (computeQfq bars actions last.date cutoff).bars.head? = some adjusted ∧
        adjusted.close = first.close * Dated.after first.date factors := by
    have hhead := congrArg List.head? hqfq
    rw [List.head?_map, List.head?_map, hfirst, Option.map_some] at hhead
    obtain ⟨adjusted, hadjusted, hprices⟩ := Option.map_eq_some_iff.1 hhead
    exact ⟨adjusted, hadjusted, congrArg Prices.close hprices⟩
  rw [computeHfq, hfirst, hlast]
  simp only [hadjusted]
  have hgate : ¬(adjusted.close ≤ lit 0 ∨ first.close ≤ lit 0) := by
    rw [lit_exact, hclose]
    have := mul_pos hpos (hafter first.date)
    rintro (h | h) <;> linarith
  rw [if_neg hgate, rescaleBars_prices, hclose]
  have hmap : ((computeQfq bars actions last.date cutoff).bars.map fun b => b.prices.map
        (· * (first.close / (first.close * Dated.after first.date factors)))) =
      ((computeQfq bars actions last.date cutoff).bars.map CoreBar.prices).map
        (Prices.map (· * (first.close / (first.close * Dated.after first.date factors)))) := by
    rw [List.map_map]
    rfl
  rw [hmap, hqfq, List.map_map]
  refine List.map_congr_left fun b hb => ?_
  have hle : first.date ≤ b.date := by
    cases bars with
    | nil => cases hfirst
    | cons a rest =>
      obtain rfl : a = first := Option.some.inj hfirst
      rcases List.mem_cons.1 hb with rfl | hb
      · exact le_rfl
      · exact (List.pairwise_cons.1 hsorted).1 b hb
  -- later factors cancel
  have hscale : ∀ x : ℚ, x * Dated.after b.date factors *
      (first.close / (first.close * Dated.after first.date factors)) =
        x / Dated.within first.date b.date factors := by
    intro x
    have hb := (hafter b.date).ne'
    have hf := (hafter first.date).ne'
    rw [← Dated.within_mul_after hle] at hf ⊢
    have hw := left_ne_zero_of_mul hf
    field_simp
  simp only [Function.comp, Prices.map, hscale]

/-- **Backward adjustment never rewrites history**: later bars leave the prices of a series as they
are, and each is the raw price divided by the factors of the actions after the first bar and up to
it. -/
theorem hfq_keeps_history (bars later : List (CoreBar ℚ)) (actions : List (CorporateAction ℚ))
    (cutoff : Option ℤ) {first last : CoreBar ℚ}
    (hsorted : (bars ++ later).Pairwise fun a b => a.date ≤ b.date)
    (hfirst : bars.head? = some first) (hlast : bars.getLast? = some last) (hpos : 0 < first.close) :
    ((computeHfq (bars ++ later) actions cutoff).bars.take bars.length).map CoreBar.prices =
        (computeHfq bars actions cutoff).bars.map CoreBar.prices ∧
      (computeHfq bars actions cutoff).bars.map CoreBar.prices = bars.map fun b => b.prices.map
        (· / Dated.within first.date b.date (actionFactors bars actions last.date cutoff).1) := by
  have hbars := List.pairwise_append.1 hsorted
  have hshort := computeHfq_prices actions cutoff hbars.1 hfirst hlast hpos
  refine ⟨?_, hshort⟩
  -- the longer series has the same first bar, and the last of the shorter one inside it
  have hfirst' : (bars ++ later).head? = some first := by
    rw [List.head?_append, hfirst]
    rfl
  obtain ⟨init, rfl⟩ : ∃ init, bars = init ++ [last] := by
    obtain ⟨init, x, rfl⟩ := List.eq_nil_or_concat' bars |>.resolve_left (by rintro rfl; cases hlast)
    rw [List.getLast?_concat] at hlast
    exact ⟨init, by rw [Option.some.inj hlast]⟩
  have hlen : (init ++ [last]).length = init.length + 1 := by simp
  have hget : ((init ++ [last]) ++ later)[init.length]? = some last := by simp
  obtain ⟨end', hend⟩ : ∃ end', ((init ++ [last]) ++ later).getLast? = some end' := by
    cases h : ((init ++ [last]) ++ later).getLast? with
    | none => simp at h
    | some x => exact ⟨x, rfl⟩
  have hbefore : ∀ b ∈ init ++ [last], b.date ≤ last.date := by
    intro b hb
    rcases List.mem_append.1 hb with hb | hb
    · exact (List.pairwise_append.1 hbars.1).2.2 b hb last (List.mem_singleton_self _)
    · rw [List.mem_singleton.1 hb]
  have hle : last.date ≤ end'.date := by
    rcases List.mem_append.1 (List.mem_of_getLast? hend) with h | h
    · rcases List.eq_nil_or_concat' later with rfl | ⟨later, x, rfl⟩
      · rw [List.append_nil, List.getLast?_concat] at hend
        rw [Option.some.inj hend]
      · rw [← List.append_assoc, List.getLast?_concat] at hend
        obtain rfl := Option.some.inj hend
        exact hbars.2.2 last (by simp) x (by simp)
    · exact hbars.2.2 last (by simp) end' h
  have hlong := computeHfq_prices actions cutoff hsorted hfirst' hend hpos
  have hfactors := actionFactors_take actions cutoff hget hle
  rw [← hlen, List.take_left] at hfactors
  rw [List.map_take, hlong, hshort, ← List.map_take, List.take_left]
  refine List.map_congr_left fun b hb => ?_
  rw [← hfactors, Dated.within_filter (hbefore b hb)]

/-- Two bars around a bonus issue. -/
def bonusBars : List (CoreBar ℚ) := [.new 1 10 10 10 10 0 .lots, .new 2 6 6 6 6 0 .lots]

/-- The bonus issue, and a dividend after it. -/
def bonusActions : List (CorporateAction ℚ) := [.new 2 0 1, .new 3 (1 / 2) 0]

/-- A third bar, on the date of the dividend, leaves the two bars as they are. -/
theorem hfq_keeps_history_bonus :
    ((computeHfq (bonusBars ++ [.new 3 5 5 5 5 0 .lots]) bonusActions none).bars.take 2).map
        CoreBar.prices = (computeHfq bonusBars bonusActions none).bars.map CoreBar.prices :=
  (hfq_keeps_history bonusBars [.new 3 5 5 5 5 0 .lots] bonusActions none
    (by simp [bonusBars, CoreBar.new]) rfl rfl (by simp [CoreBar.new])).1

end Astock
