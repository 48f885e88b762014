import Mathlib
import Astock.Proof.BacktestSteps
import Astock.Lib.Machine

/-!
# The lot that a buy takes

* `Candidate`: what a buy may take.
* `candidate_iff`: the candidates are the counts, down to the minimum lot, that cash covers.
* `fitLots_first`, `fitLots_eq_none`: the loop stops at the first count that is covered or at the guard.
* `takesLargest_iff`: when a buy takes the greatest candidate, or there is none and it is rejected.
-/

namespace Astock.BacktestEngine

open Float64

variable {F : Type} [Float64 F] (e : BacktestEngine F)

/-! ## What a buy may take -/

/-- The most shares that an order asks for. -/
def bound (cash price : F) : Qty → UInt32
  | .shares q => q
  | .max => quotient cash price

/-- Cash covers the amount and the fees of `n` shares. -/
def Covers (cash : F) (date : ℤ) (price : F) (n : UInt32) : Prop :=
  ofU32 n * price + (e.rules.tradeCostAt .buy (ofU32 n * price) (some e.board.market) date).total ≤
    cash + eps

instance (cash : F) (date : ℤ) (price : F) (n : UInt32) : Decidable (e.Covers cash date price n) :=
  inferInstanceAs (Decidable (_ ≤ _))

/-- A valid lot, not above the bound, that cash covers. -/
structure Candidate (cash : F) (qty : Qty) (date : ℤ) (price : F) (n : UInt32) : Prop where
  lot : ∃ k, n.toNat = e.board.minLot.toNat + k * e.board.lotStep.toNat
  le : n.toNat ≤ (bound cash price qty).toNat
  covered : e.Covers cash date price n

/-- The account after a buy of `n` shares. -/
def bought (order : Order) (a : Account F) (bar : Bar F) (price : F) (n : UInt32) : Account F :=
  let amount := ofU32 n * price
  let fees := e.rules.tradeCostAt .buy amount (some e.board.market) bar.date
  let pf := { a.pf with
    cash := a.pf.cash - (amount + fees.total)
    shares := a.pf.shares + n
    costBasis := a.pf.costBasis + amount
    feesCum := a.pf.feesCum + fees.total }
  { pf := pf
    result.equity := a.result.equity
    result.trades := a.result.trades ++
      [{ date := bar.date, side := .buy, shares := n, price := price, amount := amount,
         fees := fees, reason := order.reason, cashAfter := pf.cash }]
    result.rejections := a.result.rejections
    result.adjustmentWarnings := a.result.adjustmentWarnings }

/-- The buy ends. It takes the greatest candidate, or there is none and it is rejected with the
portfolio as it was. -/
def TakesLargest (order : Order) (a : Account F) (bar : Bar F) (price : F) : Prop :=
  (∃ n, e.Candidate a.pf.cash order.qty bar.date price n ∧
    (∀ m, e.Candidate a.pf.cash order.qty bar.date price m → m.toNat ≤ n.toNat) ∧
    e.executeBuy order a bar price = some (e.bought order a bar price n)) ∨
  ((∀ n, ¬e.Candidate a.pf.cash order.qty bar.date price n) ∧ ∃ reason,
    e.executeBuy order a bar price = some (a.reject bar.date order reason) ∧
    (a.reject bar.date order reason).pf = a.pf)

/-! ## The counts of the loop -/

/-- The count after `i` rounds. -/
def visit (size : UInt32) (i : ℕ) : UInt32 := size - UInt32.ofNat i * e.board.lotStep

theorem visit_zero (size : UInt32) : e.visit size 0 = size := by
  have hzero : UInt32.ofNat 0 * e.board.lotStep = 0 := UInt32.zero_mul
  rw [visit, hzero, UInt32.sub_zero]

theorem visit_succ (size : UInt32) (i : ℕ) :
    e.visit size (i + 1) = e.visit (size - e.board.lotStep) i := by
  have hcast : UInt32.ofNat (i + 1) = UInt32.ofNat i + 1 := UInt32.ofNat_add i 1
  rw [visit, visit, hcast, UInt32.succ_mul]
  grind

/-- The counts repeat. -/
theorem visit_add_period (size : UInt32) (i : ℕ) : e.visit size (i + 2 ^ 32) = e.visit size i := by
  have hcast : UInt32.ofNat (i + 2 ^ 32) = UInt32.ofNat i := by
    rw [← UInt32.toNat_inj, UInt32.toNat_ofNat', UInt32.toNat_ofNat', Nat.add_mod_right]
  rw [visit, visit, hcast]

theorem toNat_visit {size : UInt32} {i : ℕ} (h : i * e.board.lotStep.toNat ≤ size.toNat)
    (hi : i < 2 ^ 32) : (e.visit size i).toNat = size.toNat - i * e.board.lotStep.toNat := by
  have hmul : (UInt32.ofNat i * e.board.lotStep).toNat = i * e.board.lotStep.toNat := by
    rw [UInt32.toNat_mul, U32.toNat_ofNat hi, Nat.mod_eq_of_lt (h.trans_lt size.toNat_lt)]
  rw [visit, U32.toNat_sub (hmul.trans_le h), hmul]

variable {e} {cash price : F} {date : ℤ}

theorem fitLots_succ (rounds : ℕ) (size : UInt32) : e.fitLots cash date price (rounds + 1) size =
    if e.Covers cash date price size then
      some (some (size, ofU32 size * price,
        e.rules.tradeCostAt .buy (ofU32 size * price) (some e.board.market) date))
    else if size < e.board.minLot + e.board.lotStep then some none
    else e.fitLots cash date price rounds (size - e.board.lotStep) := rfl

/-- The loop stops at the first count that is covered, or that the guard ends it at. -/
theorem fitLots_first : ∀ {j rounds : ℕ} {size : UInt32}, j < rounds →
    (∀ i < j, ¬e.Covers cash date price (e.visit size i) ∧
      ¬e.visit size i < e.board.minLot + e.board.lotStep) →
    (e.Covers cash date price (e.visit size j) ∨
      e.visit size j < e.board.minLot + e.board.lotStep) →
    e.fitLots cash date price rounds size =
      some (if e.Covers cash date price (e.visit size j) then
        some (e.visit size j, ofU32 (e.visit size j) * price,
          e.rules.tradeCostAt .buy (ofU32 (e.visit size j) * price) (some e.board.market) date)
        else none)
  | j, 0, _, hj, _, _ => absurd hj (Nat.not_lt_zero j)
  | 0, rounds + 1, size, _, _, hexit => by
    rw [visit_zero] at hexit ⊢
    rw [fitLots_succ]
    by_cases hcovers : e.Covers cash date price size
    · rw [if_pos hcovers, if_pos hcovers]
    · rw [if_neg hcovers, if_neg hcovers, if_pos (hexit.resolve_left hcovers)]
  | j + 1, rounds + 1, size, hj, hbefore, hexit => by
    obtain ⟨hcovers, hguard⟩ := hbefore 0 j.succ_pos
    rw [visit_zero] at hcovers hguard
    rw [visit_succ] at hexit ⊢
    rw [fitLots_succ]
    rw [if_neg hcovers, if_neg hguard]
    refine fitLots_first (Nat.lt_of_succ_lt_succ hj) (fun i hi => ?_) hexit
    rw [← visit_succ]
    exact hbefore (i + 1) (Nat.succ_lt_succ hi)

/-- Where it gives up, the guard ended it and nothing before was covered. -/
theorem fitLots_eq_none : ∀ {rounds : ℕ} {size : UInt32},
    e.fitLots cash date price rounds size = some none →
    ∃ j, e.visit size j < e.board.minLot + e.board.lotStep ∧
      ∀ i ≤ j, ¬e.Covers cash date price (e.visit size i)
  | 0, _, h => nomatch h
  | rounds + 1, size, h => by
    rw [fitLots_succ] at h
    by_cases hcovers : e.Covers cash date price size
    · rw [if_pos hcovers] at h
      cases h
    rw [if_neg hcovers] at h
    by_cases hguard : size < e.board.minLot + e.board.lotStep
    · refine ⟨0, (visit_zero e size).symm ▸ hguard, fun i hi => ?_⟩
      rwa [Nat.le_zero.1 hi, visit_zero]
    · rw [if_neg hguard] at h
      obtain ⟨j, hj, hbefore⟩ := fitLots_eq_none h
      refine ⟨j + 1, visit_succ e size j ▸ hj, fun i hi => ?_⟩
      cases i with
      | zero => rwa [visit_zero]
      | succ i =>
        rw [visit_succ]
        exact hbefore i (Nat.le_of_succ_le_succ hi)

/-! ## The candidates -/

/-- The lot that the loop starts from. -/
def firstLot (e : BacktestEngine F) (most : UInt32) : UInt32 :=
  e.board.minLot + (most - e.board.minLot) / e.board.lotStep * e.board.lotStep

/-- How many steps it is above the minimum. -/
def stepsAbove (e : BacktestEngine F) (most : UInt32) : ℕ :=
  (most.toNat - e.board.minLot.toNat) / e.board.lotStep.toNat

variable {most : UInt32}

theorem toNat_firstLot (hmin : e.board.minLot.toNat ≤ most.toNat) : (e.firstLot most).toNat =
    e.board.minLot.toNat + e.stepsAbove most * e.board.lotStep.toNat := by
  have hle : e.stepsAbove most * e.board.lotStep.toNat ≤ most.toNat - e.board.minLot.toNat :=
    Nat.div_mul_le_self _ _
  have hlt := most.toNat_lt
  have hsteps : ((most - e.board.minLot) / e.board.lotStep * e.board.lotStep).toNat =
      e.stepsAbove most * e.board.lotStep.toNat := by
    rw [UInt32.toNat_mul, UInt32.toNat_div, U32.toNat_sub hmin]
    exact Nat.mod_eq_of_lt (hle.trans_lt (by omega))
  rw [firstLot, U32.toNat_add (by omega), hsteps]

theorem visit_firstLot (hstep : e.board.lotStep ≠ 0) (hmin : e.board.minLot.toNat ≤ most.toNat)
    {i : ℕ} (hi : i ≤ e.stepsAbove most) : (e.visit (e.firstLot most) i).toNat =
      e.board.minLot.toNat + (e.stepsAbove most - i) * e.board.lotStep.toNat := by
  have hsize := toNat_firstLot hmin
  have hpos := U32.toNat_pos hstep
  have hmul : i * e.board.lotStep.toNat ≤ e.stepsAbove most * e.board.lotStep.toNat :=
    Nat.mul_le_mul_right _ hi
  have hi32 : i < 2 ^ 32 := by
    have hle : i ≤ i * e.board.lotStep.toNat := Nat.le_mul_of_pos_right i hpos
    have hlt := (e.firstLot most).toNat_lt
    omega
  rw [toNat_visit e (by omega) hi32, hsize, Nat.sub_mul]
  omega

theorem candidate_iff (hstep : e.board.lotStep ≠ 0) {qty : Qty}
    (hmin : e.board.minLot.toNat ≤ (bound cash price qty).toNat) {n : UInt32} :
    e.Candidate cash qty date price n ↔
      ∃ i ≤ e.stepsAbove (bound cash price qty),
        n = e.visit (e.firstLot (bound cash price qty)) i ∧ e.Covers cash date price n := by
  have hpos := U32.toNat_pos hstep
  constructor
  · rintro ⟨⟨k, hk⟩, hle, hcovered⟩
    have hsteps : k ≤ e.stepsAbove (bound cash price qty) := by
      rw [stepsAbove, Nat.le_div_iff_mul_le hpos]
      omega
    refine ⟨e.stepsAbove (bound cash price qty) - k, Nat.sub_le _ _, ?_, hcovered⟩
    rw [← UInt32.toNat_inj, visit_firstLot hstep hmin (Nat.sub_le _ _), hk,
      Nat.sub_sub_self hsteps]
  · rintro ⟨i, hi, rfl, hcovered⟩
    have hvisit := visit_firstLot hstep hmin hi
    refine ⟨⟨_, hvisit⟩, ?_, hcovered⟩
    have hmul : (e.stepsAbove (bound cash price qty) - i) * e.board.lotStep.toNat ≤
        e.stepsAbove (bound cash price qty) * e.board.lotStep.toNat :=
      Nat.mul_le_mul_right _ (Nat.sub_le _ _)
    have hle : e.stepsAbove (bound cash price qty) * e.board.lotStep.toNat ≤
        (bound cash price qty).toNat - e.board.minLot.toNat := Nat.div_mul_le_self _ _
    omega

/-- Above the minimum lot the guard does not end the loop. Where its sum wraps, no step fits between
the minimum lot and the bound. -/
theorem not_guard (hstep : e.board.lotStep ≠ 0) (hmin : e.board.minLot.toNat ≤ most.toNat) {i : ℕ}
    (hi : i < e.stepsAbove most) :
    ¬e.visit (e.firstLot most) i < e.board.minLot + e.board.lotStep := by
  have hvisit := visit_firstLot hstep hmin hi.le
  have hone : 1 * e.board.lotStep.toNat ≤ (e.stepsAbove most - i) * e.board.lotStep.toNat :=
    Nat.mul_le_mul_right _ (by omega)
  have hlt := (e.visit (e.firstLot most) i).toNat_lt
  rw [UInt32.lt_iff_toNat_lt, U32.toNat_add (by omega)]
  omega

/-! ## The outcome of an order -/

variable {order : Order} {a : Account F} {bar : Bar F}

theorem fitBuy_eq (hstep : e.board.lotStep ≠ 0) {qty : Qty}
    (hmin : e.board.minLot.toNat ≤ (bound cash price qty).toNat) :
    e.fitBuy cash qty date price =
      (e.fitLots cash date price (2 ^ 32) (e.firstLot (bound cash price qty))).map fun
        | some fitted => .ok fitted
        | none => .error .insufficientCash := by
  have hbound : ¬bound cash price qty < e.board.minLot := by
    rw [UInt32.lt_iff_toNat_lt]
    omega
  have hround : e.roundLot (bound cash price qty) = some (e.firstLot (bound cash price qty)) := by
    rw [roundLot, if_neg hbound, if_neg hstep]
    rfl
  have hsize : e.buySize cash qty price = some (.ok (e.firstLot (bound cash price qty))) := by
    cases qty with
    | shares q => exact (if_neg hbound).trans (congrArg (Option.map _) hround)
    | max => exact congrArg (Option.map _) hround
  have hfirst : ¬e.firstLot (bound cash price qty) < e.board.minLot := by
    rw [UInt32.lt_iff_toNat_lt, toNat_firstLot hmin]
    omega
  rw [fitBuy, hsize, Option.bind_some]
  exact if_neg hfirst

/-- An order below the minimum lot is rejected. -/
theorem executeBuy_small (hbound : (bound a.pf.cash price order.qty).toNat < e.board.minLot.toNat) :
    ∃ reason, e.executeBuy order a bar price = some (a.reject bar.date order reason) := by
  have hlt : bound a.pf.cash price order.qty < e.board.minLot := UInt32.lt_iff_toNat_lt.2 hbound
  have hfit : ∃ reason, e.fitBuy a.pf.cash order.qty bar.date price = some (.error reason) := by
    rw [fitBuy]
    cases hqty : order.qty with
    | shares q =>
      rw [hqty] at hlt
      refine ⟨.belowMinLot, ?_⟩
      rw [buySize, if_pos (show q < e.board.minLot from hlt)]
      rfl
    | max =>
      rw [hqty] at hlt
      have hzero : (0 : UInt32) < e.board.minLot :=
        UInt32.lt_iff_toNat_lt.2 ((Nat.zero_le _).trans_lt (UInt32.lt_iff_toNat_lt.1 hlt))
      refine ⟨.insufficientCash, ?_⟩
      rw [buySize, roundLot, if_pos (show quotient a.pf.cash price < e.board.minLot from hlt)]
      exact if_pos hzero
  obtain ⟨reason, hfit⟩ := hfit
  exact ⟨reason, by rw [executeBuy, hfit]; rfl⟩

section Order

variable (hstep : e.board.lotStep ≠ 0)
  (hmin : e.board.minLot.toNat ≤ (bound a.pf.cash price order.qty).toNat)
include hstep hmin

theorem executeBuy_filled {n : UInt32}
    (h : e.fitLots a.pf.cash bar.date price (2 ^ 32) (e.firstLot (bound a.pf.cash price order.qty)) =
      some (some (n, ofU32 n * price,
        e.rules.tradeCostAt .buy (ofU32 n * price) (some e.board.market) bar.date))) :
    e.executeBuy order a bar price = some (e.bought order a bar price n) := by
  rw [executeBuy, fitBuy_eq hstep hmin, h]
  rfl

theorem executeBuy_unfilled
    (h : e.fitLots a.pf.cash bar.date price (2 ^ 32) (e.firstLot (bound a.pf.cash price order.qty)) =
      some none) :
    e.executeBuy order a bar price = some (a.reject bar.date order .insufficientCash) := by
  rw [executeBuy, fitBuy_eq hstep hmin, h]
  rfl

theorem fitLots_of_rejected {reason : RejectReason}
    (h : e.executeBuy order a bar price = some (a.reject bar.date order reason)) :
    e.fitLots a.pf.cash bar.date price (2 ^ 32) (e.firstLot (bound a.pf.cash price order.qty)) =
      some none := by
  rw [executeBuy, fitBuy_eq hstep hmin, Option.map_map, Option.map_eq_some_iff] at h
  obtain ⟨fitted, hfitted, h⟩ := h
  cases fitted with
  | none => exact hfitted
  | some fitted =>
    have hlength := congrArg (fun a' : Account F => a'.result.trades.length) h
    have hsucc : a.result.trades.length + 1 = a.result.trades.length :=
      List.length_append.symm.trans hlength
    omega

/-- The buy is right if the loop stops before the counts pass the minimum lot, or without a covered
count. -/
theorem takesLargest_of_exit {j : ℕ}
    (hexit : e.Covers a.pf.cash bar.date price
        (e.visit (e.firstLot (bound a.pf.cash price order.qty)) j) ∨
      e.visit (e.firstLot (bound a.pf.cash price order.qty)) j < e.board.minLot + e.board.lotStep)
    (hj : j ≤ e.stepsAbove (bound a.pf.cash price order.qty) ∨
      ∀ i ≤ j, ¬e.Covers a.pf.cash bar.date price
        (e.visit (e.firstLot (bound a.pf.cash price order.qty)) i)) :
    e.TakesLargest order a bar price := by
  set size := e.firstLot (bound a.pf.cash price order.qty) with hsize
  set steps := e.stepsAbove (bound a.pf.cash price order.qty) with hsteps
  have hexists : ∃ j, e.Covers a.pf.cash bar.date price (e.visit size j) ∨
    e.visit size j < e.board.minLot + e.board.lotStep := ⟨j, hexit⟩
  have hle : Nat.find hexists ≤ j := Nat.find_le hexit
  have hexit := Nat.find_spec hexists
  have hbefore : ∀ i < Nat.find hexists, ¬e.Covers a.pf.cash bar.date price (e.visit size i) ∧
      ¬e.visit size i < e.board.minLot + e.board.lotStep :=
    fun i hi => not_or.1 (Nat.find_min hexists hi)
  generalize Nat.find hexists = first at hle hexit hbefore
  have hrounds : first < 2 ^ 32 := by
    -- the counts repeat, so that a later stop is not the first
    by_contra hge
    obtain ⟨i, rfl⟩ := Nat.exists_eq_add_of_le' (not_lt.1 hge)
    rw [visit_add_period] at hexit
    exact not_or.2 (hbefore i (by omega)) hexit
  have hfit := fitLots_first hrounds hbefore hexit
  by_cases hcovers : e.Covers a.pf.cash bar.date price (e.visit size first)
  · rw [if_pos hcovers] at hfit
    have hfirst : first ≤ steps := hle.trans (hj.resolve_right fun h => h first hle hcovers)
    refine .inl ⟨_, (candidate_iff hstep hmin).2 ⟨first, hfirst, rfl, hcovers⟩, fun m hm => ?_,
      executeBuy_filled hstep hmin hfit⟩
    obtain ⟨i, hi, rfl, hcovered⟩ := (candidate_iff hstep hmin).1 hm
    have hlater : first ≤ i := not_lt.1 fun hlt => (hbefore i hlt).1 hcovered
    rw [visit_firstLot hstep hmin hi, visit_firstLot hstep hmin hfirst]
    exact Nat.add_le_add_left (Nat.mul_le_mul_right _ (by omega)) _
  · rw [if_neg hcovers] at hfit
    have hlast : steps ≤ first :=
      not_lt.1 fun hlt => not_guard hstep hmin hlt (hexit.resolve_left hcovers)
    refine .inr ⟨fun n hn => ?_, _, executeBuy_unfilled hstep hmin hfit, rfl⟩
    obtain ⟨i, hi, rfl, hcovered⟩ := (candidate_iff hstep hmin).1 hn
    rcases (hi.trans hlast).lt_or_eq with hlt | rfl
    · exact (hbefore i hlt).1 hcovered
    · exact hcovers hcovered

end Order

/-- The guard is sound for an order: its sum does not wrap; or the order is below the minimum lot; or
cash covers the minimum lot; or, counting on from the minimum lot modulo `2 ^ 32`, the guard comes
before any count that cash covers. -/
def SoundGuard (e : BacktestEngine F) (cash : F) (qty : Qty) (date : ℤ) (price : F) : Prop :=
  e.board.minLot.toNat + e.board.lotStep.toNat < 2 ^ 32 ∨
  (bound cash price qty).toNat < e.board.minLot.toNat ∨
  e.Covers cash date price e.board.minLot ∨
  ∃ j, e.visit e.board.minLot j < e.board.minLot + e.board.lotStep ∧
    ∀ i ≤ j, ¬e.Covers cash date price (e.visit e.board.minLot i)

/-- Where the sum of the guard wraps, the minimum lot is the only one. -/
theorem firstLot_of_wraps (hwraps : ¬e.board.minLot.toNat + e.board.lotStep.toNat < 2 ^ 32)
    (hmin : e.board.minLot.toNat ≤ most.toNat) :
    e.stepsAbove most = 0 ∧ e.firstLot most = e.board.minLot := by
  have hsteps : e.stepsAbove most = 0 := by
    have hlt := most.toNat_lt
    exact Nat.div_eq_of_lt (by omega)
  have hfirst := toNat_firstLot hmin
  rw [hsteps, Nat.zero_mul, Nat.add_zero] at hfirst
  exact ⟨hsteps, UInt32.toNat_inj.1 hfirst⟩

theorem takesLargest_of_soundGuard (hstep : e.board.lotStep ≠ 0)
    (h : e.SoundGuard a.pf.cash order.qty bar.date price) : e.TakesLargest order a bar price := by
  by_cases hmin : e.board.minLot.toNat ≤ (bound a.pf.cash price order.qty).toNat
  swap
  · obtain ⟨reason, hreject⟩ : ∃ reason, e.executeBuy order a bar price = _ :=
      executeBuy_small (not_le.1 hmin)
    refine .inr ⟨fun n hn => ?_, reason, hreject, rfl⟩
    obtain ⟨k, hk⟩ := hn.lot
    have hle := hn.le
    omega
  have hlast := visit_firstLot hstep hmin le_rfl
  rw [Nat.sub_self, Nat.zero_mul, Nat.add_zero, UInt32.toNat_inj] at hlast
  by_cases hsum : e.board.minLot.toNat + e.board.lotStep.toNat < 2 ^ 32
  · refine takesLargest_of_exit hstep hmin (.inr ?_) (.inl le_rfl)
    have hpos := U32.toNat_pos hstep
    rw [hlast, UInt32.lt_iff_toNat_lt, U32.toNat_add hsum]
    omega
  · obtain ⟨hsteps, hfirst⟩ := firstLot_of_wraps hsum hmin
    rcases h with h | h | h | ⟨j, hguard, hbefore⟩
    · exact absurd h hsum
    · omega
    · exact takesLargest_of_exit hstep hmin (.inl (hlast.symm ▸ h)) (.inl le_rfl)
    · rw [← hfirst] at hguard hbefore
      exact takesLargest_of_exit hstep hmin (.inr (hfirst ▸ hguard)) (.inr hbefore)

/-- **When a buy takes the largest lot.** It ends, takes the greatest valid lot within its bound that
cash covers with the fees, and is rejected only if there is none, exactly where the guard of its loop
is sound. -/
theorem takesLargest_iff (hstep : e.board.lotStep ≠ 0) : e.TakesLargest order a bar price ↔
    e.SoundGuard a.pf.cash order.qty bar.date price := by
  refine ⟨fun htakes => ?_, takesLargest_of_soundGuard hstep⟩
  by_cases hsum : e.board.minLot.toNat + e.board.lotStep.toNat < 2 ^ 32
  · exact .inl hsum
  by_cases hmin : e.board.minLot.toNat ≤ (bound a.pf.cash price order.qty).toNat
  swap
  · exact .inr (.inl (not_le.1 hmin))
  obtain ⟨hsteps, hfirst⟩ := firstLot_of_wraps hsum hmin
  rcases htakes with ⟨n, hn, -, -⟩ | ⟨-, reason, hreject, -⟩
  · -- the only candidate is the minimum lot
    obtain ⟨i, hi, rfl, hcovered⟩ := (candidate_iff hstep hmin).1 hn
    rw [hsteps, Nat.le_zero] at hi
    rw [hi, visit_zero, hfirst] at hcovered
    exact .inr (.inr (.inl hcovered))
  · have hnone := fitLots_eq_none (fitLots_of_rejected hstep hmin hreject)
    rw [hfirst] at hnone
    exact .inr (.inr (.inr hnone))

/-! ## Boards -/

/-- An account that holds only cash. -/
def cashAccount (cash : ℚ) : Account ℚ where
  pf := { cash := cash, shares := 0, sellable := 0, costBasis := 0, feesCum := 0 }
  result := {}

/-- On a board of 100 shares the guard is sound for every order. -/
theorem takesLargest_mainBoard :
    (mainEngine [] 1000 (by norm_num) .nextOpen .raw []).TakesLargest (.buy .max) (cashAccount 1000)
      (.flat 1 3) 3 :=
  (takesLargest_iff (by decide)).2 (.inl (by decide))

/-- A board whose minimum and step do not add up in 32 bits. -/
def wideBoard : BoardRule ℚ := { mainBoard with minLot := 3000000000, lotStep := 2000000000 }

def wideEngine : BacktestEngine ℚ where
  rules := { boards := [wideBoard], fees := [] }
  board := .fromRule wideBoard
  config := {
    symbol := "60"
    initialCash := 10 ^ 9
    execution := .nextOpen
    adjustment := .raw
    corporateActions := []
    slippageBps := 0
    isSt := false }
  funded := by norm_num
  resolved := by decide +kernel

/-- Cash does not cover the minimum lot of `3 * 10 ^ 9`, and the buy takes `10 ^ 9` shares. -/
theorem wideEngine_below_minimum : 1 ≤ wideEngine.board.minLot ∧ 1 ≤ wideEngine.board.lotStep ∧
    (wideEngine.executeBuy (.buy (.shares 3000000000)) (cashAccount (10 ^ 9)) (.flat 1 1) 1).map
      (·.pf.shares) = some 1000000000 ∧
    ¬wideEngine.TakesLargest (.buy (.shares 3000000000)) (cashAccount (10 ^ 9)) (.flat 1 1) 1 := by
  have hrun : (wideEngine.executeBuy (.buy (.shares 3000000000)) (cashAccount (10 ^ 9))
      (.flat 1 1) 1).map (·.pf.shares) = some 1000000000 := by
    decide +kernel
  refine ⟨by decide, by decide, hrun, ?_⟩
  rintro (⟨n, hn, -, hbuy⟩ | ⟨-, reason, hreject, -⟩)
  · rw [hbuy] at hrun
    have hshares : 0 + n = 1000000000 := Option.some.inj hrun
    obtain ⟨k, hk⟩ := hn.lot
    rw [UInt32.zero_add] at hshares
    rw [hshares] at hk
    have hmin : wideEngine.board.minLot.toNat = 3000000000 := by decide
    have hcount : (1000000000 : UInt32).toNat = 1000000000 := by decide
    omega
  · rw [hreject] at hrun
    have hshares : (0 : UInt32) = 1000000000 := Option.some.inj hrun
    exact absurd hshares (by decide)

end Astock.BacktestEngine
