import Astock.Lib.Fifo
import Astock.Proof.TradingSafety

/-!
# Round trips

* `fold_matchFill`: the loop over the fills matches first-in first-out.
* `Matchable`: what the attempts of a run keep of the fill log, so that it can be matched.
* `round_trips_account`: **the round trips account for the whole result**, unless a buy overflows the
  share count or buys nothing.
-/

namespace Astock

open Float64

/-! ## Matching -/

section Matching

variable {F : Type} [Float64 F]

/-- What a share of a buy costs, fees included. -/
def Fill.costShare (f : Fill F) : F := f.price + f.fees.total / ofU32 f.shares

/-- What a share of a sell brings in, fees deducted. -/
def Fill.netShare (f : Fill F) : F := f.price - f.fees.total / ofU32 f.shares

/-- A fill and its place in the log. -/
abbrev Placed (F : Type) := Fill F × ℕ

def lotOf (e : Placed F × ℕ) : Lot F where
  date := e.1.1.date
  cost := e.1.1.costShare
  shares := UInt32.ofNat e.2

def tripOf (m : (Placed F × Placed F) × ℕ) : RoundTrip F where
  entryDate := m.1.1.1.date
  exitDate := m.1.2.1.date
  shares := UInt32.ofNat m.2
  pnl := ofU32 (UInt32.ofNat m.2) * (m.1.2.1.netShare - m.1.1.1.costShare)
  returnPct := ofU32 (UInt32.ofNat m.2) * (m.1.2.1.netShare - m.1.1.1.costShare) /
    (ofU32 (UInt32.ofNat m.2) * m.1.1.1.costShare)

/-- A buy is put into the queue of lots, a sell takes from it. -/
def moveOf (f : Placed F) : Fifo.Move (Placed F) (Placed F) :=
  match f.1.side with
  | .buy => .put f f.1.shares.toNat
  | .sell => .take f f.1.shares.toNat

def moves (fills : List (Fill F)) : List (Fifo.Move (Placed F) (Placed F)) := fills.zipIdx.map moveOf

/-- **Closing lots is taking from the queue.** -/
theorem closeLots_eq (sell : Placed F) {queue : List (Placed F × ℕ)} : ∀ {n : ℕ}, n < 2 ^ 32 →
    (∀ e ∈ queue, e.2 < 2 ^ 32) →
    closeLots sell.1.date sell.1.netShare (UInt32.ofNat n) (queue.map lotOf) =
      ((Fifo.pull n queue).1.map fun e => tripOf ((e.1, sell), e.2),
        (Fifo.pull n queue).2.map lotOf) := by
  induction queue with
  | nil => intro n _ _; rfl
  | cons e queue ih =>
    intro n hn hbound
    obtain ⟨he, hqueue⟩ := List.forall_mem_cons.1 hbound
    have hzero : UInt32.ofNat n = 0 ↔ n = 0 := by
      rw [← UInt32.toNat_inj, U32.toNat_ofNat hn]
      rfl
    have hshares : (lotOf e).shares = UInt32.ofNat e.2 := rfl
    have hen : (UInt32.ofNat e.2).toNat = e.2 := U32.toNat_ofNat he
    have hnn : (UInt32.ofNat n).toNat = n := U32.toNat_ofNat hn
    rw [List.map_cons, closeLots, Fifo.pull]
    by_cases h₀ : n = 0
    · rw [if_pos (hzero.2 h₀), if_pos h₀]
      rfl
    rw [if_neg (fun h => h₀ (hzero.1 h)), if_neg h₀]
    dsimp only
    rw [hshares]
    by_cases hle : e.2 ≤ n
    · have hmin : min (UInt32.ofNat n) (UInt32.ofNat e.2) = UInt32.ofNat e.2 := by
        rw [← UInt32.toNat_inj, U32.toNat_min, hnn, hen, min_eq_right hle]
      have hsub : UInt32.ofNat n - UInt32.ofNat e.2 = UInt32.ofNat (n - e.2) := by
        rw [← UInt32.toNat_inj, U32.toNat_sub (by rwa [hnn, hen]), hnn, hen,
          U32.toNat_ofNat (by omega)]
      rw [hmin, UInt32.sub_self, if_pos rfl, if_pos hle, hsub, ih (by omega) hqueue]
      rfl
    · have hmin : min (UInt32.ofNat n) (UInt32.ofNat e.2) = UInt32.ofNat n := by
        rw [← UInt32.toNat_inj, U32.toNat_min, hnn, hen, min_eq_left (by omega)]
      have hsub : UInt32.ofNat e.2 - UInt32.ofNat n = UInt32.ofNat (e.2 - n) := by
        rw [← UInt32.toNat_inj, U32.toNat_sub (by rw [hnn, hen]; omega), hnn, hen,
          U32.toNat_ofNat (by omega)]
      have hne : UInt32.ofNat (e.2 - n) ≠ 0 := by
        rw [Ne, ← UInt32.toNat_inj, U32.toNat_ofNat (by omega)]
        change e.2 - n ≠ 0
        omega
      rw [hmin, hsub, if_neg hne, if_neg hle]
      rfl

/-- The state of the matching that a state of the queue stands for. -/
def matchState (s : List ((Placed F × Placed F) × ℕ) × List (Placed F × ℕ)) :
    List (RoundTrip F) × List (Lot F) :=
  (s.1.map tripOf, s.2.map lotOf)

theorem matchFill_eq (f : Placed F) {s : List ((Placed F × Placed F) × ℕ) × List (Placed F × ℕ)}
    (hbound : ∀ e ∈ s.2, e.2 < 2 ^ 32) :
    matchFill (matchState s) f.1 = matchState (Fifo.step s (moveOf f)) := by
  cases hside : f.1.side with
  | buy =>
    rw [matchFill, moveOf, hside]
    change (s.1.map tripOf, s.2.map lotOf ++ [_]) = (s.1.map tripOf, (s.2 ++ [_]).map lotOf)
    rw [List.map_append, List.map_singleton, lotOf, UInt32.ofNat_toNat]
    rfl
  | sell =>
    rw [matchFill, moveOf, hside]
    have h := closeLots_eq f f.1.shares.toNat_lt hbound
    rw [UInt32.ofNat_toNat] at h
    change ((s.1.map tripOf) ++ (closeLots f.1.date f.1.netShare f.1.shares (s.2.map lotOf)).1,
      (closeLots f.1.date f.1.netShare f.1.shares (s.2.map lotOf)).2) = _
    rw [h]
    change _ = ((s.1 ++ _).map tripOf, _)
    rw [List.map_append, List.map_map]
    rfl

theorem moveOf_count (f : Placed F) : (moveOf f).count < 2 ^ 32 := by
  rw [moveOf]
  split <;> exact f.1.shares.toNat_lt

theorem moves_bounded (placed : List (Placed F)) : ∀ m ∈ placed.map moveOf, m.count < 2 ^ 32 := by
  intro m hm
  obtain ⟨f, -, rfl⟩ := List.mem_map.1 hm
  exact moveOf_count f

/-- **The loop over the fills matches first-in first-out.** -/
theorem fold_matchFill (fills : List (Fill F)) :
    fills.foldl matchFill ([], []) = matchState (Fifo.run (moves fills)) := by
  have hgen : ∀ placed : List (Placed F), (placed.map Prod.fst).foldl matchFill ([], []) =
      matchState (Fifo.run (placed.map moveOf)) := by
    intro placed
    induction placed using List.reverseRecOn with
    | nil => rfl
    | append_singleton placed f ih =>
      rw [List.map_append, List.map_append, List.foldl_append, ih, List.map_singleton,
        List.map_singleton, Fifo.run_concat]
      exact matchFill_eq f (Fifo.run_bounded (moves_bounded placed)).2
  have h := hgen fills.zipIdx
  rwa [List.zipIdx_map_fst] at h

/-! ## Share by share -/

/-- The fills of a side, once for each share. -/
def shareFills (side : TradeSide) (fills : List (Fill F)) : List (Fill F) :=
  (fills.filter (·.side = side)).flatMap fun f => List.replicate f.shares.toNat f

/-- The dates of round trips, once for each share. -/
def tripDates (trips : List (RoundTrip F)) : List (ℤ × ℤ) :=
  trips.flatMap fun trip => List.replicate trip.shares.toNat (trip.entryDate, trip.exitDate)

/-- The shares of the lots that stay open after some fills. -/
def openShares (fills : List (Fill F)) : ℕ :=
  ((fills.foldl matchFill ([], [])).2.map fun lot => lot.shares.toNat).sum

omit [Float64 F]

theorem length_shareFills (side : TradeSide) (fills : List (Fill F)) :
    (shareFills side fills).length = sharesOf side fills := by
  rw [shareFills, List.length_flatMap, sharesOf]
  simp only [List.length_replicate]

/-- The shares put into the queue are those bought, the shares taken are those sold. -/
theorem units_moves (placed : List (Placed F)) :
    (Fifo.units (Fifo.puts (placed.map moveOf))).map Prod.fst =
        shareFills .buy (placed.map Prod.fst) ∧
      (Fifo.units (Fifo.takes (placed.map moveOf))).map Prod.fst =
        shareFills .sell (placed.map Prod.fst) := by
  induction placed with
  | nil => exact ⟨rfl, rfl⟩
  | cons f placed ih =>
    obtain ⟨hputs, htakes⟩ := ih
    have hcons : ∀ side, shareFills side ((f :: placed).map Prod.fst) =
        (if f.1.side = side then List.replicate f.1.shares.toNat f.1 else []) ++
          shareFills side (placed.map Prod.fst) := by
      intro side
      by_cases h : f.1.side = side <;> simp [shareFills, h]
    rw [hcons, hcons, ← hputs, ← htakes, List.map_cons, moveOf]
    cases hside : f.1.side with
    | buy => simp [Fifo.puts, Fifo.takes]
    | sell => simp [Fifo.puts, Fifo.takes]

theorem units_puts (fills : List (Fill F)) :
    (Fifo.units (Fifo.puts (moves fills))).map Prod.fst = shareFills .buy fills := by
  have h := (units_moves fills.zipIdx).1
  rwa [List.zipIdx_map_fst] at h

theorem units_takes (fills : List (Fill F)) :
    (Fifo.units (Fifo.takes (moves fills))).map Prod.fst = shareFills .sell fills := by
  have h := (units_moves fills.zipIdx).2
  rwa [List.zipIdx_map_fst] at h

/-- No more is sold than was bought before. -/
def Covered (fills : List (Fill F)) : Prop :=
  ∀ past, past <+: fills → sharesOf .sell past ≤ sharesOf .buy past

theorem Covered.moves {fills : List (Fill F)} (h : Covered fills) : Fifo.Covered (moves fills) := by
  intro past hpast
  obtain ⟨hputs, htakes⟩ := units_moves (fills.zipIdx.take past.length)
  have htake : past = (fills.zipIdx.take past.length).map moveOf := by
    rw [List.map_take]
    exact List.prefix_iff_eq_take.1 hpast
  have hle := h ((fills.zipIdx.take past.length).map Prod.fst) (by
    rw [List.map_take, List.zipIdx_map_fst]
    exact List.take_prefix _ _)
  rw [← length_shareFills, ← length_shareFills, ← hputs, ← htakes, List.length_map,
    List.length_map, ← htake] at hle
  exact hle

variable [Float64 F] {fills : List (Fill F)}

theorem roundTrips_eq (fills : List (Fill F)) :
    roundTrips fills = (Fifo.run (moves fills)).1.map tripOf := by
  rw [roundTrips, fold_matchFill]
  rfl

/-- The dates of the trips are those of the matched shares. -/
theorem tripDates_units (fills : List (Fill F)) : tripDates (roundTrips fills) =
    (Fifo.units (Fifo.run (moves fills)).1).map fun m => (m.1.1.date, m.2.1.date) := by
  have hbound := (Fifo.run_bounded (moves_bounded fills.zipIdx)).1
  rw [roundTrips_eq, tripDates, List.flatMap_map, Fifo.units, List.map_flatMap]
  refine List.flatMap_congr fun m hm => ?_
  rw [List.map_replicate, tripOf, U32.toNat_ofNat (hbound m hm)]

/-- **First in, first out**: the shares sold are the shares bought, in their order. -/
theorem tripDates_eq (h : Covered fills) : tripDates (roundTrips fills) =
    ((shareFills .buy fills).map Fill.date).zip ((shareFills .sell fills).map Fill.date) := by
  rw [tripDates_units, (Fifo.run_units h.moves).1, ← units_puts, ← units_takes, List.map_map,
    List.map_map, List.zip_map]
  rfl

theorem length_tripDates (trips : List (RoundTrip F)) :
    (tripDates trips).length = (trips.map fun trip => trip.shares.toNat).sum := by
  rw [tripDates, List.length_flatMap]
  simp only [List.length_replicate]

/-- **All shares sold are in the round trips.** -/
theorem shares_closed (h : Covered fills) :
    ((roundTrips fills).map fun trip => trip.shares.toNat).sum = sharesOf .sell fills := by
  have hle := h fills (List.prefix_refl _)
  rw [← length_tripDates, tripDates_eq h, List.length_zip, List.length_map, List.length_map,
    length_shareFills, length_shareFills, min_eq_right hle]

/-- The shares that are not sold stay open. -/
theorem openShares_eq (h : Covered fills) :
    openShares fills = sharesOf .buy fills - sharesOf .sell fills := by
  have hbound := (Fifo.run_bounded (moves_bounded fills.zipIdx)).2
  have hcounts : openShares fills = ((Fifo.run (moves fills)).2.map Prod.snd).sum := by
    rw [openShares, fold_matchFill, matchState, List.map_map]
    refine congrArg List.sum (List.map_congr_left fun e he => ?_)
    exact U32.toNat_ofNat (hbound e he)
  rw [hcounts, ← Fifo.length_units, (Fifo.run_units h.moves).2, List.length_drop,
    ← length_shareFills, ← length_shareFills, ← units_puts, ← units_takes, List.length_map,
    List.length_map]

/-- **No sell is left without an open lot.** -/
theorem sell_covered (h : Covered fills) {past : List (Fill F)} {f : Fill F}
    (hupto : past ++ [f] <+: fills) (hside : f.side = .sell) :
    f.shares.toNat ≤ openShares past := by
  have hpast : Covered past := fun p hp => h p (hp.trans ((List.prefix_append _ _).trans hupto))
  have hle := h _ hupto
  rw [sharesOf_append, sharesOf_append, sharesOf_singleton, sharesOf_singleton, if_pos hside,
    if_neg (by rw [hside]; exact TradeSide.noConfusion)] at hle
  rw [openShares_eq hpast]
  omega

/-- A round trip pairs a buy with a later sell. -/
def RoundTrip.Pairs (fills : List (Fill F)) (trip : RoundTrip F) : Prop :=
  ∃ (i j : ℕ) (buy sell : Fill F), i < j ∧ fills[i]? = some buy ∧ fills[j]? = some sell ∧
    buy.side = .buy ∧ sell.side = .sell ∧ trip.entryDate = buy.date ∧ trip.exitDate = sell.date ∧
    trip.entryDate ≤ trip.exitDate

/-- **Each round trip pairs a buy with a later sell.** -/
theorem trips_paired (hsorted : fills.Pairwise fun f g => f.date ≤ g.date) :
    ∀ trip ∈ roundTrips fills, trip.Pairs fills := by
  intro trip htrip
  rw [roundTrips_eq] at htrip
  obtain ⟨m, hm, rfl⟩ := List.mem_map.1 htrip
  have hrelated : (moves fills).Pairwise (Fifo.Move.Relates fun f g : Placed F => f.2 < g.2 ∧
      fills[f.2]? = some f.1 ∧ fills[g.2]? = some g.1 ∧ f.1.side = .buy ∧ g.1.side = .sell) := by
    refine List.pairwise_map.2 (List.pairwise_iff_getElem.2 fun i j hi hj hij => ?_)
    rw [List.length_zipIdx] at hi hj
    rw [List.getElem_zipIdx, List.getElem_zipIdx, Nat.zero_add, Nat.zero_add, moveOf, moveOf]
    dsimp only
    split
    · rename_i hbuy
      split
      · trivial
      · rename_i hsell
        exact ⟨hij, List.getElem?_eq_getElem hi, List.getElem?_eq_getElem hj, hbuy, hsell⟩
    · trivial
  obtain ⟨hlt, hbuy, hsell, hbought, hsold⟩ := Fifo.run_related hrelated m hm
  refine ⟨_, _, _, _, hlt, hbuy, hsell, hbought, hsold, rfl, rfl, ?_⟩
  obtain ⟨hi, hbuy⟩ := List.getElem?_eq_some_iff.1 hbuy
  obtain ⟨hj, hsell⟩ := List.getElem?_eq_some_iff.1 hsell
  have hle := List.pairwise_iff_getElem.1 hsorted _ _ hi hj hlt
  rwa [hbuy, hsell] at hle

end Matching

/-! ## Profit and loss -/

section Profit

variable {fills : List (Fill ℚ)}

theorem sum_zip_sub {α β : Type} (f : α → ℚ) (g : β → ℚ) : ∀ {l : List α} {r : List β},
    l.length = r.length → ((l.zip r).map fun p => g p.2 - f p.1).sum =
      (r.map g).sum - (l.map f).sum := by
  intro l
  induction l with
  | nil =>
    intro r h
    obtain rfl := List.length_eq_zero_iff.1 h.symm
    simp
  | cons a l ih =>
    intro r h
    cases r with
    | nil => cases h
    | cons b r =>
      rw [List.zip_cons_cons, List.map_cons, List.sum_cons, ih (Nat.succ.inj h), List.map_cons,
        List.map_cons, List.sum_cons, List.sum_cons]
      ring

/-- Some shares are traded, for their amount. -/
def Fill.Whole {F : Type} [Float64 F] (f : Fill F) : Prop :=
  f.shares ≠ 0 ∧ f.amount = ofU32 f.shares * f.price

/-- What is paid and received, share by share. -/
theorem sum_shareFills (side : TradeSide) (g : Fill ℚ → ℚ) (fills : List (Fill ℚ)) :
    ((shareFills side fills).map g).sum =
      ((fills.filter (·.side = side)).map fun f => f.shares.toNat * g f).sum := by
  rw [shareFills]
  induction fills.filter (·.side = side) with
  | nil => rfl
  | cons f rest ih =>
    rw [List.flatMap_cons, List.map_append, List.sum_append, ih, List.map_replicate,
      List.sum_replicate, List.map_cons, List.sum_cons, nsmul_eq_mul]

def feesOn (side : TradeSide) (fills : List (Fill ℚ)) : ℚ := feesOf (fills.filter (·.side = side))

theorem feesOf_eq (fills : List (Fill ℚ)) : feesOf fills = feesOn .buy fills + feesOn .sell fills := by
  induction fills with
  | nil => simp [feesOn, feesOf]
  | cons f fills ih =>
    have hcons : feesOf (f :: fills) = f.fees.total + feesOf fills := by
      rw [feesOf, List.map_cons, List.sum_cons]
      rfl
    rw [hcons, ih]
    cases hside : f.side <;> simp [feesOn, feesOf, hside] <;> ring

theorem sum_costShare (h : ∀ f ∈ fills, f.Whole) :
    ((shareFills .buy fills).map Fill.costShare).sum = amountOf .buy fills + feesOn .buy fills := by
  rw [sum_shareFills, amountOf, feesOn, feesOf, ← List.sum_map_add]
  refine congrArg List.sum (List.map_congr_left fun f hf => ?_)
  obtain ⟨hne, hamount⟩ := h f (List.mem_filter.1 hf).1
  have hpos : (f.shares.toNat : ℚ) ≠ 0 := by exact_mod_cast (U32.toNat_pos hne).ne'
  rw [hamount, Fill.costShare, ofU32_exact, mul_add, mul_div_cancel₀ _ hpos]

theorem sum_netShare (h : ∀ f ∈ fills, f.Whole) :
    ((shareFills .sell fills).map Fill.netShare).sum = amountOf .sell fills - feesOn .sell fills := by
  rw [eq_sub_iff_add_eq, sum_shareFills, amountOf, feesOn, feesOf, ← List.sum_map_add]
  refine congrArg List.sum (List.map_congr_left fun f hf => ?_)
  obtain ⟨hne, hamount⟩ := h f (List.mem_filter.1 hf).1
  have hpos : (f.shares.toNat : ℚ) ≠ 0 := by exact_mod_cast (U32.toNat_pos hne).ne'
  rw [hamount, Fill.netShare, ofU32_exact, mul_sub, mul_div_cancel₀ _ hpos, sub_add_cancel]

/-- The profit of the round trips, share by share. -/
theorem sum_pnl (fills : List (Fill ℚ)) : ((roundTrips fills).map RoundTrip.pnl).sum =
    ((Fifo.units (Fifo.run (moves fills)).1).map fun m =>
      m.2.1.netShare - m.1.1.costShare).sum := by
  have hbound := (Fifo.run_bounded (moves_bounded fills.zipIdx)).1
  rw [Fifo.sum_units, roundTrips_eq, List.map_map]
  refine congrArg List.sum (List.map_congr_left fun m hm => ?_)
  rw [Function.comp_apply, tripOf, ofU32_exact, U32.toNat_ofNat (hbound m hm), nsmul_eq_mul]

/-- **The profit of fills that end flat** is what the sells bring in less what the buys cost. -/
theorem pnl_of_flat (hcovered : Covered fills) (hwhole : ∀ f ∈ fills, f.Whole)
    (hflat : sharesOf .buy fills = sharesOf .sell fills) :
    ((roundTrips fills).map RoundTrip.pnl).sum =
      amountOf .sell fills - amountOf .buy fills - feesOf fills := by
  have hlen : (Fifo.units (Fifo.puts (moves fills))).length =
      (Fifo.units (Fifo.takes (moves fills))).length := by
    rw [← length_shareFills, ← length_shareFills, ← units_puts, ← units_takes, List.length_map,
      List.length_map] at hflat
    exact hflat
  rw [sum_pnl, (Fifo.run_units hcovered.moves).1,
    sum_zip_sub (fun f : Placed ℚ => f.1.costShare) (fun f : Placed ℚ => f.1.netShare) hlen]
  have hcost := sum_costShare hwhole
  have hnet := sum_netShare hwhole
  rw [← units_puts, List.map_map] at hcost
  rw [← units_takes, List.map_map] at hnet
  rw [feesOf_eq]
  calc _ = (amountOf .sell fills - feesOn .sell fills) - (amountOf .buy fills + feesOn .buy fills) :=
        congrArg₂ (· - ·) hnet hcost
    _ = _ := by ring

end Profit

/-! ## The claim on runs -/

/-- No buy is for no shares at all. -/
def Attempt.BuysShares {F : Type} [Float64 F] (e : BacktestEngine F) (bars : List (Bar F))
    (x : Attempt F) : Prop :=
  ∀ bar shares amount fees, e.Buys bars x.t x.rawPrice x.before x.order bar shares amount fees →
    shares ≠ 0

/-- On a board with a minimum lot, buys are for shares. -/
theorem Attempt.buysShares_of_minLot {F : Type} [Float64 F] {e : BacktestEngine F}
    (hstep : e.board.lotStep ≠ 0) (hlot : e.board.minLot ≠ 0)
    (hsum : e.board.minLot.toNat + e.board.lotStep.toNat < 2 ^ 32) (bars : List (Bar F))
    (x : Attempt F) : x.BuysShares e bars := by
  intro bar shares amount fees hbuy h₀
  have hvalid := (isValidLot_iff hstep).1 (fitBuy_validLot hstep hsum hbuy.fit)
  rw [h₀] at hvalid
  exact absurd (U32.toNat_pos hlot) (not_lt.2 hvalid.1)

/-- What the attempts keep of the fill log, so that it can be matched. -/
structure Matchable {F : Type} [Float64 F] (a : Account F) : Prop where
  holds : Holds a
  covered : Covered a.result.trades
  whole : ∀ f ∈ a.result.trades, f.Whole

section Runs

variable {F σ : Type} [Float64 F] {e : BacktestEngine F} {S : Strategy F σ} {series : PriceSeries F}
  {s s' : σ} {bars : List (Bar F)} {t : ℕ} {first : Bar F} {rest : List (Bar F)}

theorem Matchable.stable : BacktestEngine.Stable (Matchable (F := F)) where
  opened a h := ⟨Holds.stable.opened a h.holds, h.covered, h.whole⟩
  marked a points h := ⟨Holds.stable.marked a points h.holds, h.covered, h.whole⟩

theorem Matchable.start (bars : List (Bar F)) (first : Bar F) (s : σ) :
    Matchable (e.start bars first s).account where
  holds := ⟨rfl, le_rfl⟩
  covered past hpast := by
    obtain rfl := List.prefix_nil.1 hpast
    exact le_rfl
  whole f hf := by cases hf

omit [Float64 F] in
/-- A log stays covered as long as what is held is what the fills leave. -/
theorem Covered.concat {fills : List (Fill F)} (h : Covered fills) {fill : Fill F}
    (hall : sharesOf .sell (fills ++ [fill]) ≤ sharesOf .buy (fills ++ [fill])) :
    Covered (fills ++ [fill]) := by
  intro past hpast
  rcases List.prefix_concat_iff.1 hpast with rfl | hpast
  · exact hall
  · exact h past hpast

theorem Matchable.book {a : Account F} (h : Matchable a) {pf : Portfolio F} {fill : Fill F}
    (hholds : Holds (a.book pf fill)) (hfill : fill.Whole) : Matchable (a.book pf fill) where
  holds := hholds
  covered := h.covered.concat (by
    have hshares := hholds.shares
    change _ + sharesOf .sell (a.result.trades ++ [fill]) = sharesOf .buy (a.result.trades ++ [fill])
      at hshares
    omega)
  whole f hf := by
    rcases List.mem_append.1 hf with hf | hf
    · exact h.whole f hf
    · obtain rfl := List.mem_singleton.1 hf
      exact hfill

/-- **An attempt keeps the log matchable.** -/
theorem BacktestEngine.Attempted.matchable {x : Attempt F} {a' : Account F}
    (h : e.Attempted bars x.t x.rawPrice x.before x.order a') (hfits : x.NoOverflow e bars)
    (hsome : x.BuysShares e bars) (hbefore : Matchable x.before) : Matchable a' := by
  have hholds := h.holds hfits hbefore.holds
  cases h with
  | rejected reason hbar => exact ⟨hholds, hbefore.covered, hbefore.whole⟩
  | @bought bar shares amount fees hbuy =>
    refine hbefore.book hholds ⟨hsome bar shares amount fees hbuy, ?_⟩
    exact (BacktestEngine.fitBuy_covered hbuy.fit).1
  | @sold bar shares hsell => exact hbefore.book hholds ⟨hsell.pos, rfl⟩

/-- The fills of a walk come in the order of their dates. -/
theorem walk_trades_sorted (hsorted : bars.Pairwise fun a b => a.date < b.date) {n : ℕ} :
    ∀ {w : Walk F σ}, e.walk S bars first s n = some w →
      w.account.result.trades.Pairwise fun f g => f.date ≤ g.date := by
  induction n with
  | zero =>
    intro w h
    obtain rfl := Option.some.inj h
    exact .nil
  | succ n ih =>
    intro w h
    obtain ⟨w₁, hw₁, hround⟩ := BacktestEngine.walk_succ_eq_some.1 h
    obtain ⟨hgrows, -⟩ := BacktestEngine.walk_grows (Nat.zero_le n) rfl hw₁
    obtain ⟨past, hpast, hdated⟩ := hgrows.trades
    obtain ⟨bar, account, hbar, hall, rfl⟩ := BacktestEngine.onBar_eq_some.1 hround
    obtain ⟨new, hnew, hdate⟩ := (BacktestEngine.executeAll_grows hbar hall).1.trades
    rw [BacktestEngine.openBar_result] at hnew
    change account.result.trades.Pairwise _
    rw [hnew]
    refine List.pairwise_append.2 ⟨ih hw₁, ?_, fun f hf g hg => ?_⟩
    · refine List.Pairwise.imp_of_mem (fun hf hg _ => ?_) (List.pairwise_of_forall fun _ _ => trivial)
      rw [hdate _ hf, hdate _ hg]
    · rw [hpast] at hf
      obtain ⟨u, b, -, hu, hb, hb'⟩ := hdated f hf
      rw [hdate g hg, ← hb']
      exact (date_lt hsorted hu hb hbar).le

/-- The last equity point holds what the account holds. -/
theorem walk_last_point {n : ℕ} {w : Walk F σ} (h : e.walk S bars first s n = some w)
    {point : EquityPoint F} (hlast : w.account.result.equity.getLast? = some point) :
    point.shares = w.account.pf.shares ∧ point.cash = w.account.pf.cash := by
  cases n with
  | zero =>
    obtain rfl := Option.some.inj h
    cases hlast
  | succ n =>
    obtain ⟨w₁, hw₁, hround⟩ := BacktestEngine.walk_succ_eq_some.1 h
    obtain ⟨bar, account, hbar, hall, rfl⟩ := BacktestEngine.onBar_eq_some.1 hround
    change (account.result.equity ++ [_]).getLast? = some point at hlast
    rw [List.getLast?_concat] at hlast
    obtain rfl := Option.some.inj hlast
    exact ⟨rfl, rfl⟩

end Runs

/-- **The round trips account for a result**: shares are matched first-in first-out, all shares sold
are in a round trip, each pairs a buy with a later sell, no sell is left without an open lot, and if
the run ends flat, the round trips make the difference in cash. -/
structure RoundTripsAccount (initialCash : ℚ) (r : BacktestResult ℚ) : Prop where
  matched : tripDates (roundTrips r.trades) =
    ((shareFills .buy r.trades).map Fill.date).zip ((shareFills .sell r.trades).map Fill.date)
  closed : ((roundTrips r.trades).map fun trip => trip.shares.toNat).sum = sharesOf .sell r.trades
  paired : ∀ trip ∈ roundTrips r.trades, trip.Pairs r.trades
  covered : ∀ past f, past ++ [f] <+: r.trades → f.side = .sell → f.shares.toNat ≤ openShares past
  flat : ∀ point, r.equity.getLast? = some point → point.shares = 0 →
    ((roundTrips r.trades).map RoundTrip.pnl).sum = point.cash - initialCash

/-- **Round trips account for the result** of the runs in which no buy overflows the share count or
buys nothing. -/
theorem round_trips_account {σ : Type} (e : BacktestEngine ℚ) (S : Strategy ℚ σ)
    (series : PriceSeries ℚ) (s : σ) {s' : σ} {r : BacktestResult ℚ}
    (hrun : e.run S series s = some (.ok (r, s')))
    (hfits : ∀ x ∈ e.attempts S series s, x.NoOverflow e series.bars)
    (hsome : ∀ x ∈ e.attempts S series s, x.BuysShares e series.bars) :
    RoundTripsAccount e.config.initialCash r := by
  obtain ⟨first, rest, w, hbars, hw, rfl, -⟩ := BacktestEngine.run_eq_ok hrun
  have hmatchable : Matchable w.account := by
    refine BacktestEngine.walk_invariant Matchable.stable hbars (Matchable.start _ _ _) ?_ hw
    exact fun x hx hbefore a' h => h.matchable (hfits x hx) (hsome x hx) hbefore
  have hbooked := (walk_booked hbars hfits hw).2
  constructor
  · exact tripDates_eq hmatchable.covered
  · exact shares_closed hmatchable.covered
  · exact trips_paired (walk_trades_sorted series.sorted hw)
  · exact fun past f hupto hside => sell_covered hmatchable.covered hupto hside
  · intro point hlast hzero
    obtain ⟨hshares, hcash⟩ := walk_last_point hw hlast
    have hflat : sharesOf .buy w.account.result.trades = sharesOf .sell w.account.result.trades := by
      have h := hmatchable.holds.shares
      rw [← hshares, hzero] at h
      change 0 + _ = _ at h
      omega
    rw [pnl_of_flat hmatchable.covered hmatchable.whole hflat, hcash, hbooked.cash]
    ring

/-- Two buys of 200 shares, closed by sells of 300 and 100, with a commission of 5 each: the run ends
flat with a loss of 20. -/
theorem round_trips_account_split_lots : ∃ r, RoundTripsAccount 1000 r ∧
    (r.equity.getLast?.any fun point => point.shares = 0 ∧ point.cash = 980) = true := by
  have hrun : (returned ((mainEngine brokerFees 1000 (by norm_num) .nextOpen .raw []).run
      (scripted [[.buy (.shares 200), .buy (.shares 200)], [.sell (.shares 300), .sell .max]])
      (flatSeries 1) ())).any (fun x =>
        x.1.equity.getLast?.any fun point => point.shares = 0 ∧ point.cash = 980) = true := by
    decide +kernel
  have hfits : ((mainEngine brokerFees 1000 (by norm_num) .nextOpen .raw []).attempts
      (scripted [[.buy (.shares 200), .buy (.shares 200)], [.sell (.shares 300), .sell .max]])
      (flatSeries 1) ()).all
        (·.fits (mainEngine brokerFees 1000 (by norm_num) .nextOpen .raw []) (flatSeries 1).bars) := by
    decide +kernel
  obtain ⟨⟨r, s'⟩, hr, hflat⟩ := (Option.any_eq_true _ _).1 hrun
  refine ⟨r, round_trips_account (mainEngine brokerFees 1000 (by norm_num) .nextOpen .raw []) _ _ _
    (returned_eq_some.1 hr) (fun x hx => ?_) (fun x _ => ?_), hflat⟩
  · exact Attempt.noOverflow_of_fits (List.all_eq_true.1 hfits x hx)
  · exact x.buysShares_of_minLot (by decide) (by decide) (by decide) _

/-- Two buys of all that 10^11 of cash affords at a price of 1, and a sell of all that the wrapped
share count says: the run ends flat, with no profit in its round trips, and without the cash of
2^32 shares. -/
theorem overflow_unaccounted : ¬∀ (e : BacktestEngine ℚ) (S : Strategy ℚ Unit)
    (series : PriceSeries ℚ) (s' : Unit) (r : BacktestResult ℚ),
    e.run S series () = some (.ok (r, s')) → RoundTripsAccount e.config.initialCash r := by
  intro h
  have hrun : (returned ((mainEngine [] (10 ^ 11) (by norm_num) .nextOpen .raw []).run
      (scripted [[.buy .max, .buy .max], [.sell .max]]) (flatSeries 1) ())).any (fun x =>
        x.1.equity.getLast?.any fun point => point.shares = 0 ∧
          ((roundTrips x.1.trades).map RoundTrip.pnl).sum ≠ point.cash - 10 ^ 11) = true := by
    decide +kernel
  obtain ⟨⟨r, s'⟩, hr, hprop⟩ := (Option.any_eq_true _ _).1 hrun
  obtain ⟨point, hpoint, hne⟩ := (Option.any_eq_true _ _).1 hprop
  obtain ⟨hzero, hne⟩ := of_decide_eq_true hne
  exact hne ((h _ _ _ s' r (returned_eq_some.1 hr)).flat point hpoint hzero)

end Astock
