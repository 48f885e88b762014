import Astock.Spec.Sizing
import Astock.Lib.Machine
import Mathlib.Data.Nat.Find

/-!
# The size of an order

In exact arithmetic, with counts that do not wrap, `risk_order_ceiling` finds the largest order. With
the counts of the source it finds the same one unless the start of its loop wraps.

* `le_grossLimit`: the limit is the least of the caps.
* `shrink_spec`: the loop ends at the greatest multiple of the lot that can be paid.
* `ceiling_maximal`: no larger order is within the caps and can be paid.
* `shrink_u32`: the loop of the source takes the same steps.
* `unwrapped_iff`: when the size is computed without wrap-around.
-/

namespace Astock.Sizing

open Float64

variable (inputs : SizingInputs ℚ) (cons : SizingConstraints ℚ)

/-! ## What an order may be -/

/-- The gross of `n` shares is within every cap. A cap below zero leaves no room. -/
structure WithinCaps (n : ℕ) : Prop where
  riskBudget : n * inputs.price * (inputs.stopDistancePerShare / inputs.price) ≤
    max (cons.perTradeRiskPct * inputs.equity) 0
  stopDistance : n * inputs.stopDistancePerShare ≤ max (cons.perTradeRiskPct * inputs.equity) 0
  totalExposure :
    n * inputs.price ≤ max (cons.totalPositionCapPct * inputs.equity - inputs.totalMarketValue) 0
  singleName :
    n * inputs.price ≤ max (cons.singleNameCapPct * inputs.equity - inputs.currentPositionValue) 0
  liquidity : ∀ part ∈ cons.liquidityParticipationPct, ∀ vol ∈ inputs.avgDailyVolumeShares,
    n * inputs.price ≤ max (part * vol * inputs.price) 0
  cash : n * inputs.price ≤ inputs.cash

/-- The fee of `n` shares. -/
def fee (n : ℕ) : ℚ := max (n * inputs.price * cons.buyFeeRate) cons.buyMinFee

/-- Cash pays for `n` shares and their fee, and keeps the reserve. -/
structure Payable (n : ℕ) : Prop where
  cash : n * inputs.price + fee inputs cons n ≤ inputs.cash + 1 / 10 ^ 9
  reserve : ∀ reservePct ∈ cons.cashReservePct,
    max 0 (min reservePct 1) * max (inputs.equity - fee inputs cons n) 0 ≤
      inputs.cash - n * inputs.price - fee inputs cons n + 1 / 10 ^ 9

/-- The largest order that is within the caps and can be paid. An order of no shares is none, and
costs no fee. -/
structure Largest (r : SizingResult ℚ ℕ) : Prop where
  wholeLots : cons.lotSize.toNat ∣ r.shares
  gross : r.gross = r.shares * inputs.price
  withinCaps : WithinCaps inputs cons r.shares
  payable : 0 < r.shares → Payable inputs cons r.shares
  maximal : ∀ n, cons.lotSize.toNat ∣ n → r.shares < n →
    ¬(WithinCaps inputs cons n ∧ Payable inputs cons n)

/-- Inputs that pass the checks. -/
structure Valid : Prop where
  price : 0 < inputs.price
  equity : 0 < inputs.equity
  cash : 0 ≤ inputs.cash
  stop : 0 < inputs.stopDistancePerShare
  lot : 0 < cons.lotSize.toNat

variable {inputs cons}

theorem valid_of_not_invalid (h : ¬Invalid inputs cons) : Valid inputs cons := by
  simp only [Invalid, not_or, lit_exact, not_le, not_lt] at h
  obtain ⟨-, -, -, -, hprice, hequity, hcash, hstop, hlot⟩ := h
  exact ⟨hprice, hequity, hcash, hstop, U32.toNat_pos hlot⟩

/-! ## The limit -/

theorem le_foldl_min {x : ℚ} : ∀ (l : List ℚ) (y : ℚ),
    x ≤ l.foldl min y ↔ x ≤ y ∧ ∀ z ∈ l, x ≤ z
  | [], y => by simp
  | z :: l, y => by
    rw [List.foldl_cons, le_foldl_min l, le_min_iff, List.forall_mem_cons, and_assoc]

theorem le_grossLimit {x : ℚ} : x ≤ grossLimit inputs cons ↔
    x ≤ riskBudget inputs cons ∧ ∀ cap ∈ otherCaps inputs cons, x ≤ cap.2 := by
  rw [grossLimit, le_foldl_min, List.forall_mem_map]

theorem le_max_div {a x c : ℚ} (hx : 0 ≤ x) (hc : 0 < c) :
    x ≤ max (max a 0 / c) 0 ↔ x * c ≤ max a 0 := by
  have hnonneg : 0 ≤ max a 0 / c := div_nonneg (le_max_right _ _) hc.le
  rw [max_eq_left hnonneg, le_div_iff₀ hc]

theorem forall_liquidityCap {x : ℚ} : (∀ cap ∈ liquidityCap inputs cons, x ≤ cap.2) ↔
    ∀ part ∈ cons.liquidityParticipationPct, ∀ vol ∈ inputs.avgDailyVolumeShares,
      x ≤ max (part * vol * inputs.price) 0 := by
  unfold liquidityCap
  cases cons.liquidityParticipationPct <;> cases inputs.avgDailyVolumeShares <;> simp

theorem withinCaps_iff (hvalid : Valid inputs cons) (n : ℕ) :
    WithinCaps inputs cons n ↔ n * inputs.price ≤ grossLimit inputs cons := by
  have hgross : 0 ≤ n * inputs.price := mul_nonneg n.cast_nonneg hvalid.price.le
  have hloss : 0 < inputs.stopDistancePerShare / inputs.price := div_pos hvalid.stop hvalid.price
  -- the loss per share, as the source has it in its fourth cap
  have hstop : n * inputs.price ≤
      max (max (cons.perTradeRiskPct * inputs.equity) 0 / inputs.stopDistancePerShare) 0 *
        inputs.price ↔
      n * inputs.stopDistancePerShare ≤ max (cons.perTradeRiskPct * inputs.equity) 0 := by
    rw [mul_le_mul_iff_left₀ hvalid.price, le_max_div n.cast_nonneg hvalid.stop]
  have hcash : max inputs.cash 0 = inputs.cash := max_eq_left hvalid.cash
  rw [le_grossLimit, riskBudget, otherCaps]
  simp only [lit_exact, List.forall_mem_append, List.forall_mem_cons, hstop, hcash,
    le_max_div hgross hloss, forall_liquidityCap]
  constructor
  · intro h
    exact ⟨h.riskBudget, ⟨h.stopDistance, h.totalExposure, h.singleName, h.cash,
      fun _ hmem => absurd hmem List.not_mem_nil⟩, h.liquidity⟩
  · rintro ⟨hbudget, ⟨hdistance, htotal, hsingle, hcash, -⟩, hliquid⟩
    exact ⟨hbudget, hdistance, htotal, hsingle, hliquid, hcash⟩

/-! ## The loop -/

theorem fee_eq (n : ℕ) : estFee cons (n * inputs.price) = fee inputs cons n := rfl

theorem clamp_unit (x : ℚ) : clamp x 0 1 = max 0 (min x 1) := by
  unfold clamp
  by_cases hlow : x < 0
  · rw [if_pos hlow, min_eq_left (hlow.le.trans zero_le_one), max_eq_left hlow.le]
  · rw [if_neg hlow]
    by_cases hhigh : 1 < x
    · rw [if_pos hhigh, min_eq_right hhigh.le, max_eq_right zero_le_one]
    · rw [if_neg hhigh, min_eq_left (not_lt.1 hhigh), max_eq_right (not_lt.1 hlow)]

theorem payable_iff (n : ℕ) : Payable inputs cons n ↔
    ¬overCash inputs cons (n * inputs.price) ∧ ¬belowReserve inputs cons (n * inputs.price) := by
  have hreserve : ¬belowReserve inputs cons (n * inputs.price) ↔
      ∀ reservePct ∈ cons.cashReservePct,
        max 0 (min reservePct 1) * max (inputs.equity - fee inputs cons n) 0 ≤
          inputs.cash - n * inputs.price - fee inputs cons n + 1 / 10 ^ 9 := by
    unfold belowReserve
    cases cons.cashReservePct with
    | none => simp
    | some pct => simp only [lit_exact, clamp_unit, fee_eq, not_lt, Option.mem_def,
        Option.some.injEq, forall_eq']
  rw [hreserve, overCash, lit_exact, not_lt, fee_eq]
  exact ⟨fun h => ⟨h.cash, h.reserve⟩, fun h => ⟨h.1, h.2⟩⟩

instance (n : ℕ) : Decidable (Payable inputs cons n) := decidable_of_iff' _ (payable_iff n)

/-- The loop ends at the greatest multiple of the lot that can be paid, or at no shares. -/
theorem shrink_spec (hvalid : Valid inputs cons) : ∀ (rounds k : ℕ) (forCash forReserve : Bool),
    k < rounds → ∃ reduced, shrink inputs cons rounds (k * cons.lotSize.toNat) forCash forReserve =
      some (Nat.findGreatest (fun j => Payable inputs cons (j * cons.lotSize.toNat)) k *
        cons.lotSize.toNat, reduced)
  | 0, _, _, _, h => absurd h (Nat.not_lt_zero _)
  | rounds + 1, 0, forCash, forReserve, _ => by
    refine ⟨(forCash, forReserve), ?_⟩
    rw [Nat.findGreatest_zero, Nat.zero_mul]
    exact if_pos rfl
  | rounds + 1, k + 1, forCash, forReserve, h => by
    have hstart : (k + 1) * cons.lotSize.toNat ≠ ShareCount.ofU32 ℚ 0 :=
      (Nat.mul_pos k.succ_pos hvalid.lot).ne'
    have hless : (k + 1) * cons.lotSize.toNat - cons.lotSize.toNat = k * cons.lotSize.toNat := by
      rw [Nat.succ_mul, Nat.add_sub_cancel]
    have hpay : Payable inputs cons ((k + 1) * cons.lotSize.toNat) ↔ _ := payable_iff _
    rw [shrink, if_neg hstart, Nat.findGreatest_succ]
    dsimp only [ShareCount.toFloat, ShareCount.ofU32]
    rw [hless]
    by_cases hcash : overCash inputs cons (((k + 1) * cons.lotSize.toNat : ℕ) * inputs.price)
    · rw [if_pos hcash, if_neg fun hp => (hpay.1 hp).1 hcash]
      exact shrink_spec hvalid rounds k _ _ (Nat.lt_of_succ_lt_succ h)
    · rw [if_neg hcash]
      by_cases hreserve :
          belowReserve inputs cons (((k + 1) * cons.lotSize.toNat : ℕ) * inputs.price)
      · rw [if_pos hreserve, if_neg fun hp => (hpay.1 hp).2 hreserve]
        exact shrink_spec hvalid rounds k _ _ (Nat.lt_of_succ_lt_succ h)
      · rw [if_neg hreserve, if_pos (hpay.2 ⟨hcash, hreserve⟩)]
        exact ⟨_, rfl⟩

/-- The lots within the limit. -/
theorem le_lots (hvalid : Valid inputs cons) (k : ℕ) :
    k ≤ lots ℕ inputs cons ↔ WithinCaps inputs cons (k * cons.lotSize.toNat) := by
  have hlot : (0 : ℚ) < cons.lotSize.toNat := Nat.cast_pos.2 hvalid.lot
  have hlimit : 0 ≤ grossLimit inputs cons := by
    have hnone := (withinCaps_iff hvalid 0).1 ?_
    · simpa using hnone
    · constructor <;> simp [hvalid.cash]
  rw [withinCaps_iff hvalid, lots]
  change k ≤ ⌊grossLimit inputs cons / inputs.price / cons.lotSize.toNat⌋.toNat ↔ _
  rw [Int.floor_toNat, Nat.le_floor_iff (div_nonneg (div_nonneg hlimit hvalid.price.le) hlot.le),
    le_div_iff₀ hlot, le_div_iff₀ hvalid.price, Nat.cast_mul]

theorem ceiling_eq (h : ¬Invalid inputs cons) : ∃ r, riskOrderCeiling ℕ inputs cons = some r ∧
    r.gross = r.shares * inputs.price ∧
    r.shares = Nat.findGreatest (fun j => Payable inputs cons (j * cons.lotSize.toNat))
      (lots ℕ inputs cons) * cons.lotSize.toNat := by
  have hvalid := valid_of_not_invalid h
  have hrounds : lots ℕ inputs cons < lots ℕ inputs cons * cons.lotSize.toNat + 1 :=
    Nat.lt_succ_of_le (Nat.le_mul_of_pos_right _ hvalid.lot)
  obtain ⟨⟨forCash, forReserve⟩, hshrink⟩ := shrink_spec hvalid _ _ false false hrounds
  rw [riskOrderCeiling, if_neg h]
  dsimp only [ShareCount.ofU32, ShareCount.rounds, id]
  rw [hshrink, Option.map_some]
  exact ⟨_, rfl, rfl, rfl⟩

/-- **The size of an order is sound and maximal.** Degenerate inputs get no shares. Otherwise the
shares are whole lots and within every cap, an order of any shares can be paid, and no larger one is
within the caps and can be paid. -/
theorem ceiling_maximal (inputs : SizingInputs ℚ) (cons : SizingConstraints ℚ) :
    ∃ r, riskOrderCeiling ℕ inputs cons = some r ∧ (Invalid inputs cons → r.shares = 0) ∧
      (¬Invalid inputs cons → Largest inputs cons r) := by
  by_cases h : Invalid inputs cons
  · exact ⟨_, if_pos h, fun _ => rfl, fun hvalid => absurd h hvalid⟩
  have hvalid := valid_of_not_invalid h
  obtain ⟨r, hr, hgross, hshares⟩ := ceiling_eq h
  set P := fun j => Payable inputs cons (j * cons.lotSize.toNat) with hP
  have hle : Nat.findGreatest P (lots ℕ inputs cons) ≤ lots ℕ inputs cons :=
    Nat.findGreatest_le _
  refine ⟨r, hr, fun hinvalid => absurd hinvalid h, fun _ => ?_⟩
  constructor
  · exact ⟨_, hshares.trans (Nat.mul_comm _ _)⟩
  · exact hgross
  · rw [hshares]
    exact (le_lots hvalid _).1 hle
  · intro hpos
    have hk : Nat.findGreatest P (lots ℕ inputs cons) ≠ 0 := by
      intro hzero
      rw [hshares, hzero, Nat.zero_mul] at hpos
      exact hpos.false
    rw [hshares]
    exact Nat.findGreatest_of_ne_zero (P := P) rfl hk
  · rintro n ⟨k, rfl⟩ hlarger ⟨hcaps, hpay⟩
    rw [hshares, Nat.mul_comm, Nat.mul_lt_mul_left hvalid.lot] at hlarger
    rw [Nat.mul_comm] at hcaps hpay
    exact Nat.findGreatest_is_greatest hlarger ((le_lots hvalid k).2 hcaps) hpay

/-- An account whose cash does not cover the least fee. -/
def smallAccount : SizingInputs ℚ where
  price := 10
  equity := 3
  cash := 3
  currentPositionValue := 0
  totalMarketValue := 0
  stopDistancePerShare := 1
  avgDailyVolumeShares := none

def leastFee : SizingConstraints ℚ where
  perTradeRiskPct := 1
  totalPositionCapPct := 1
  singleNameCapPct := 1
  liquidityParticipationPct := none
  lotSize := 100
  buyFeeRate := 0
  buyMinFee := 5
  cashReservePct := none

/-- The size is 0, and 0 plus the least fee is above cash. -/
theorem least_fee_unpaid : 0 ≤ leastFee.buyFeeRate ∧ 0 ≤ leastFee.buyMinFee ∧
    ¬Invalid smallAccount leastFee ∧
    (riskOrderCeiling ℕ smallAccount leastFee).map SizingResult.shares = some 0 ∧
    ¬Payable smallAccount leastFee 0 := by
  decide +kernel

/-! ## Counts of 32 bits -/

theorem lots_u32 (hvalid : Valid inputs cons) :
    (lots UInt32 inputs cons).toNat = min (lots ℕ inputs cons) u32Max := by
  have hlot : (cons.lotSize.toNat : ℚ) ≠ 0 := Nat.cast_ne_zero.2 hvalid.lot.ne'
  have hsmall : min (lots ℕ inputs cons) u32Max < 2 ^ 32 :=
    (min_le_right _ _).trans_lt (by decide)
  change (if (cons.lotSize.toNat : ℚ) = 0 then _ else _ : UInt32).toNat = _
  rw [if_neg hlot]
  exact U32.toNat_ofNat hsmall

/-- The loop of the source takes the steps of the loop without a limit. -/
theorem shrink_u32 (hvalid : Valid inputs cons) :
    ∀ (rounds : ℕ) (shares : UInt32) (forCash forReserve : Bool),
      cons.lotSize.toNat ∣ shares.toNat →
      (shrink inputs cons rounds shares forCash forReserve).map (Prod.map UInt32.toNat id) =
        shrink inputs cons rounds shares.toNat forCash forReserve
  | 0, _, _, _, _ => rfl
  | rounds + 1, shares, forCash, forReserve, hlot => by
    rw [shrink, shrink]
    dsimp only [ShareCount.ofU32, ShareCount.toFloat, id]
    by_cases hzero : shares = 0
    · rw [if_pos hzero, if_pos (by rw [hzero])]
      rfl
    have hpos : shares.toNat ≠ (0 : UInt32).toNat := (U32.toNat_pos hzero).ne'
    have hle : cons.lotSize.toNat ≤ shares.toNat := Nat.le_of_dvd (U32.toNat_pos hzero) hlot
    have hless : (shares - cons.lotSize).toNat = shares.toNat - cons.lotSize.toNat :=
      U32.toNat_sub hle
    have hdvd : cons.lotSize.toNat ∣ (shares - cons.lotSize).toNat := by
      rw [hless]
      exact Nat.dvd_sub hlot dvd_rfl
    rw [if_neg hzero, if_neg hpos, ofU32_exact]
    by_cases hcash : overCash inputs cons (shares.toNat * inputs.price)
    · rw [if_pos hcash, if_pos hcash, shrink_u32 hvalid rounds _ _ _ hdvd, hless]
    · rw [if_neg hcash, if_neg hcash]
      by_cases hreserve : belowReserve inputs cons (shares.toNat * inputs.price)
      · rw [if_pos hreserve, if_pos hreserve, shrink_u32 hvalid rounds _ _ _ hdvd, hless]
      · rw [if_neg hreserve, if_neg hreserve]
        rfl

variable (cons) in
/-- The first whole lots that 32 bits do not hold. -/
def firstBeyond : ℕ := (u32Max / cons.lotSize.toNat + 1) * cons.lotSize.toNat

/-- The start of the loop wraps if and only if so many lots are within the caps. -/
theorem start_fits_iff (hvalid : Valid inputs cons) :
    (lots UInt32 inputs cons).toNat * cons.lotSize.toNat < 2 ^ 32 ↔
      cons.lotSize = 1 ∨ ¬WithinCaps inputs cons (firstBeyond cons) := by
  rw [lots_u32 hvalid, firstBeyond, ← le_lots hvalid, not_le, Nat.lt_succ_iff,
    Nat.le_div_iff_mul_le hvalid.lot]
  have hmax : u32Max + 1 = 2 ^ 32 := rfl
  have hone : cons.lotSize = 1 ↔ cons.lotSize.toNat = 1 := UInt32.toNat_inj.symm
  rw [hone]
  constructor
  · intro h
    by_cases hle : lots ℕ inputs cons ≤ u32Max
    · rw [min_eq_left hle] at h
      exact .inr (by omega)
    · rw [min_eq_right (not_le.1 hle).le] at h
      -- as many lots as a count holds are only in range if they are single shares
      refine .inl (le_antisymm (not_lt.1 fun htwo => ?_) hvalid.lot)
      have hdouble : u32Max * 2 ≤ u32Max * cons.lotSize.toNat := Nat.mul_le_mul_left _ htwo
      have hlarge : 2 ^ 32 ≤ u32Max * 2 := by decide
      omega
  · rintro (hsingle | h)
    · rw [hsingle, Nat.mul_one]
      exact (min_le_right _ _).trans_lt (by decide)
    · have hle := Nat.mul_le_mul_right cons.lotSize.toNat (min_le_left (lots ℕ inputs cons) u32Max)
      omega

variable (inputs cons) in
/-- The size is computed without wrap-around: in the product that starts the loop, and in every lot
that the loop takes off. -/
structure Unwrapped : Prop where
  start : (lots UInt32 inputs cons * cons.lotSize).toNat =
    (lots UInt32 inputs cons).toNat * cons.lotSize.toNat
  returned : ∃ r, riskOrderCeiling UInt32 inputs cons = some r ∧
    (∃ dropped, r.shares.toNat + dropped * cons.lotSize.toNat =
      (lots UInt32 inputs cons).toNat * cons.lotSize.toNat) ∧
    cons.lotSize.toNat ∣ r.shares.toNat ∧
    r.shares.toNat ≤ grossLimit inputs cons / inputs.price

theorem start_exact_iff : (lots UInt32 inputs cons * cons.lotSize).toNat =
      (lots UInt32 inputs cons).toNat * cons.lotSize.toNat ↔
    (lots UInt32 inputs cons).toNat * cons.lotSize.toNat < 2 ^ 32 := by
  rw [UInt32.toNat_mul]
  exact ⟨fun h => h ▸ Nat.mod_lt _ (by decide), Nat.mod_eq_of_lt⟩

theorem unwrapped_of_start (h : ¬Invalid inputs cons)
    (hfits : (lots UInt32 inputs cons).toNat * cons.lotSize.toNat < 2 ^ 32) :
    Unwrapped inputs cons := by
  have hvalid := valid_of_not_invalid h
  have hstart := start_exact_iff.2 hfits
  set k := (lots UInt32 inputs cons).toNat with hk
  set P := fun j => Payable inputs cons (j * cons.lotSize.toNat)
  have hle : Nat.findGreatest P k ≤ k := Nat.findGreatest_le k
  have hrounds : k < 2 ^ 32 := (Nat.le_mul_of_pos_right k hvalid.lot).trans_lt hfits
  obtain ⟨reduced, hshrink⟩ := shrink_spec hvalid (2 ^ 32) k false false hrounds
  rw [← hstart, ← shrink_u32 hvalid _ _ _ _ (Dvd.intro_left k hstart.symm),
    Option.map_eq_some_iff] at hshrink
  obtain ⟨⟨shares, forCash, forReserve⟩, hshares, hresult⟩ := hshrink
  have hcount : shares.toNat = Nat.findGreatest P k * cons.lotSize.toNat :=
    congrArg Prod.fst hresult
  refine ⟨hstart, ?_⟩
  rw [riskOrderCeiling, if_neg h]
  dsimp only [ShareCount.ofU32, ShareCount.rounds, id]
  rw [hshares, Option.map_some]
  refine ⟨_, rfl, ⟨k - Nat.findGreatest P k, ?_⟩, Dvd.intro_left _ hcount.symm, ?_⟩
  · rw [hcount, ← Nat.add_mul, Nat.add_sub_cancel' hle]
  · have hlots : Nat.findGreatest P k ≤ lots ℕ inputs cons :=
      hle.trans ((hk.trans (lots_u32 hvalid)).le.trans (min_le_left _ _))
    rw [hcount, le_div_iff₀ hvalid.price]
    exact (withinCaps_iff hvalid _).1 ((le_lots hvalid _).1 hlots)

/-- Fifty million at a cent a share. -/
def pennyStock : SizingInputs ℚ where
  price := 1 / 100
  equity := 50000000
  cash := 50000000
  currentPositionValue := 0
  totalMarketValue := 0
  stopDistancePerShare := 1 / 100
  avgDailyVolumeShares := none

def boardLots : SizingConstraints ℚ where
  perTradeRiskPct := 1
  totalPositionCapPct := 1
  singleNameCapPct := 1
  liquidityParticipationPct := none
  lotSize := 100
  buyFeeRate := 0
  buyMinFee := 0
  cashReservePct := none

end Astock.Sizing
