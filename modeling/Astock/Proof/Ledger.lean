import Mathlib
import Astock.Lib.Machine
import Astock.Proof.VisibleBars

/-!
# The ledger of a run

* `Attempted.answers`: each order is answered by one fill or one rejection.
* `Attempted.booked`: an attempt that does not overflow the share count keeps the account in line
  with its fills.
* `ledger_conserves`: **cash, shares and fees follow the fills, and each order has one answer.**
* `solvent_iff`: **cash and equity stay above zero** exactly when sells cover their fees.
-/

namespace Astock

open Float64

/-! ## Sums over fills -/

def amountOf (side : TradeSide) (fills : List (Fill ℚ)) : ℚ :=
  ((fills.filter (·.side = side)).map Fill.amount).sum

def sharesOf {F : Type} (side : TradeSide) (fills : List (Fill F)) : ℕ :=
  ((fills.filter (·.side = side)).map fun f => f.shares.toNat).sum

def feesOf (fills : List (Fill ℚ)) : ℚ := (fills.map fun f => f.fees.total).sum

theorem amountOf_append (side : TradeSide) (fills more : List (Fill ℚ)) :
    amountOf side (fills ++ more) = amountOf side fills + amountOf side more := by
  rw [amountOf, List.filter_append, List.map_append, List.sum_append]
  rfl

theorem sharesOf_append {F : Type} (side : TradeSide) (fills more : List (Fill F)) :
    sharesOf side (fills ++ more) = sharesOf side fills + sharesOf side more := by
  rw [sharesOf, List.filter_append, List.map_append, List.sum_append]
  rfl

theorem feesOf_append (fills more : List (Fill ℚ)) :
    feesOf (fills ++ more) = feesOf fills + feesOf more := by
  rw [feesOf, List.map_append, List.sum_append]
  rfl

theorem amountOf_singleton (side : TradeSide) (f : Fill ℚ) :
    amountOf side [f] = if f.side = side then f.amount else 0 := by
  by_cases h : f.side = side <;> simp [amountOf, h]

theorem sharesOf_singleton {F : Type} (side : TradeSide) (f : Fill F) :
    sharesOf side [f] = if f.side = side then f.shares.toNat else 0 := by
  by_cases h : f.side = side <;> simp [sharesOf, h]

theorem feesOf_singleton (f : Fill ℚ) : feesOf [f] = f.fees.total := by simp [feesOf]

/-! ## Answers -/

section Answers

variable {F σ : Type}

/-- The answer to an order. -/
abbrev OrderAnswer (F : Type) := Fill F ⊕ Rejection

def fillsIn (answers : List (OrderAnswer F)) : List (Fill F) := answers.filterMap Sum.getLeft?

def rejectionsIn (answers : List (OrderAnswer F)) : List Rejection := answers.filterMap Sum.getRight?

def Side.trade : Side → TradeSide
  | buy => .buy
  | sell => .sell

/-- A fill or a rejection of this order, dated at its attempt. -/
def Answers (date : ℤ) (order : Order) : OrderAnswer F → Prop
  | .inl fill => fill.date = date ∧ fill.side = order.side.trade ∧ fill.reason = order.reason
  | .inr x => x.date = date ∧ x.side = order.side ∧ x.qty = order.qty

variable [Float64 F] {e : BacktestEngine F} {bars : List (Bar F)} {t : ℕ} {rawPrice : F}
  {a a' : Account F} {order : Order} {bar : Bar F}

namespace BacktestEngine

/-- **One answer for each attempt**, and nothing else in the logs. -/
theorem Attempted.answers (h : e.Attempted bars t rawPrice a order a') (hbar : bars[t]? = some bar) :
    ∃ answer, Answers bar.date order answer ∧
      a'.result.trades = a.result.trades ++ fillsIn [answer] ∧
      a'.result.rejections = a.result.rejections ++ rejectionsIn [answer] := by
  have hsame : ∀ {bar' : Bar F}, bars[t]? = some bar' → bar'.date = bar.date := by
    intro bar' hbar'
    rw [hbar] at hbar'
    exact congrArg Bar.date (Option.some.inj hbar').symm
  cases h with
  | rejected reason hbar' =>
    exact ⟨.inr _, ⟨hsame hbar', rfl, rfl⟩, (List.append_nil _).symm, rfl⟩
  | bought hbuy =>
    exact ⟨.inl _, ⟨hsame hbuy.at', by rw [hbuy.side]; rfl, rfl⟩, rfl, (List.append_nil _).symm⟩
  | sold hsell =>
    exact ⟨.inl _, ⟨hsame hsell.at', by rw [hsell.side]; rfl, rfl⟩, rfl, (List.append_nil _).symm⟩

/-- **One answer for each order due at a bar**, in their order. -/
theorem executeAll_answers (hbar : bars[t]? = some bar) {orders : List Order} : ∀ {a : Account F},
    e.executeAll bars t rawPrice orders a = some a' → ∃ answers,
      List.Forall₂ (Answers bar.date) orders answers ∧
      a'.result.trades = a.result.trades ++ fillsIn answers ∧
      a'.result.rejections = a.result.rejections ++ rejectionsIn answers := by
  induction orders with
  | nil =>
    intro a h
    obtain rfl := Option.some.inj h
    exact ⟨[], .nil, (List.append_nil _).symm, (List.append_nil _).symm⟩
  | cons order orders ih =>
    intro a h
    obtain ⟨a₁, hone, hrest⟩ := Trace.foldlM_cons_eq_some.1 h
    obtain ⟨answer, hanswer, htrades, hrejections⟩ :=
      (attempted_of_executeOne hone).answers hbar
    obtain ⟨answers, hall, htrades', hrejections'⟩ := ih hrest
    refine ⟨answer :: answers, .cons hanswer hall, ?_, ?_⟩
    · rw [htrades', htrades, List.append_assoc, fillsIn, fillsIn, ← List.filterMap_append]
      rfl
    · rw [hrejections', hrejections, List.append_assoc, rejectionsIn, rejectionsIn,
        ← List.filterMap_append]
      rfl

end BacktestEngine

end Answers

/-! ## The books -/

/-- No buy takes the holding past `u32::MAX`. -/
def Attempt.NoOverflow {F : Type} [Float64 F] (e : BacktestEngine F) (bars : List (Bar F))
    (x : Attempt F) : Prop :=
  ∀ bar shares amount fees, e.Buys bars x.t x.rawPrice x.before x.order bar shares amount fees →
    x.before.pf.shares.toNat + shares.toNat < 2 ^ 32

/-- An attempt whose lots fit into a `u32` together with what is held. -/
def Attempt.fits {F : Type} [Float64 F] (e : BacktestEngine F) (bars : List (Bar F))
    (x : Attempt F) : Bool :=
  (bars[x.t]?).all fun bar =>
    match e.fitBuy x.before.pf.cash x.order.qty bar.date (e.buyPrice x.rawPrice) with
    | some (.ok (shares, _, _)) => x.before.pf.shares.toNat + shares.toNat < 2 ^ 32
    | _ => true

theorem Attempt.noOverflow_of_fits {F : Type} [Float64 F] {e : BacktestEngine F}
    {bars : List (Bar F)} {x : Attempt F} (h : x.fits e bars) : x.NoOverflow e bars := by
  intro bar shares amount fees hbuy
  rw [Attempt.fits, hbuy.at', Option.all_some, hbuy.fit] at h
  exact of_decide_eq_true h

/-- What is held follows from the fills. -/
structure Holds {F : Type} (a : Account F) : Prop where
  shares : a.pf.shares.toNat + sharesOf .sell a.result.trades = sharesOf .buy a.result.trades
  sellable : a.pf.sellable.toNat ≤ a.pf.shares.toNat

/-- Cash and fees follow from the fills. -/
structure Booked (initialCash : ℚ) (a : Account ℚ) : Prop where
  cash : a.pf.cash = initialCash - amountOf .buy a.result.trades + amountOf .sell a.result.trades -
    feesOf a.result.trades
  fees : a.pf.feesCum = feesOf a.result.trades

theorem sellSize_le (sellable : UInt32) (qty : Qty) :
    (BacktestEngine.sellSize sellable qty).toNat ≤ sellable.toNat := by
  cases qty with
  | shares q =>
    rw [BacktestEngine.sellSize, U32.toNat_min]
    exact min_le_right _ _
  | max => exact le_rfl

namespace BacktestEngine

section Holds

variable {F : Type} [Float64 F] {e : BacktestEngine F} {bars : List (Bar F)} {t : ℕ} {rawPrice : F}
  {a a' : Account F} {order : Order}

/-- An attempt keeps the share count in line with the fills, unless it overflows. -/
theorem Attempted.holds (h : e.Attempted bars t rawPrice a order a')
    (hfits : Attempt.NoOverflow e bars ⟨t, rawPrice, order, a⟩) (ha : Holds a) : Holds a' := by
  cases h with
  | rejected reason hbar => exact ⟨ha.shares, ha.sellable⟩
  | @bought bar shares amount fees hbuy =>
    have hadd : (a.pf.shares + shares).toNat = a.pf.shares.toNat + shares.toNat :=
      U32.toNat_add (hfits bar shares amount fees hbuy)
    constructor
    · change (a.pf.shares + shares).toNat + sharesOf .sell (a.result.trades ++ [_]) =
        sharesOf .buy (a.result.trades ++ [_])
      rw [sharesOf_append, sharesOf_append, sharesOf_singleton, sharesOf_singleton, hadd,
        ← ha.shares]
      simp only [reduceCtorEq, if_true, if_false]
      omega
    · change a.pf.sellable.toNat ≤ (a.pf.shares + shares).toNat
      have := ha.sellable
      omega
  | @sold bar shares hsell =>
    have hle : shares.toNat ≤ a.pf.sellable.toNat := by
      rw [hsell.size]
      exact sellSize_le _ _
    have hheld := ha.sellable
    have hsub := U32.toNat_sub (hle.trans hheld)
    constructor
    · change (a.pf.shares - shares).toNat + sharesOf .sell (a.result.trades ++ [_]) =
        sharesOf .buy (a.result.trades ++ [_])
      rw [sharesOf_append, sharesOf_append, sharesOf_singleton, sharesOf_singleton, hsub,
        ← ha.shares]
      simp only [reduceCtorEq, if_true, if_false]
      omega
    · change (a.pf.sellable - shares).toNat ≤ (a.pf.shares - shares).toNat
      rw [hsub, U32.toNat_sub hle]
      omega

end Holds

variable {e : BacktestEngine ℚ} {bars : List (Bar ℚ)} {t : ℕ} {rawPrice : ℚ} {a a' : Account ℚ}
  {order : Order} {initialCash : ℚ}

/-- An attempt keeps cash and fees in line with the fills. -/
theorem Attempted.booked (h : e.Attempted bars t rawPrice a order a') (ha : Booked initialCash a) :
    Booked initialCash a' := by
  cases h with
  | rejected reason hbar => exact ⟨ha.cash, ha.fees⟩
  | @bought bar shares amount fees hbuy =>
    constructor
    · change a.pf.cash - (amount + fees.total) = initialCash - amountOf .buy (a.result.trades ++ [_]) +
        amountOf .sell (a.result.trades ++ [_]) - feesOf (a.result.trades ++ [_])
      rw [ha.cash, amountOf_append, amountOf_append, feesOf_append, amountOf_singleton,
        amountOf_singleton, feesOf_singleton]
      simp only [reduceCtorEq, if_true, if_false]
      ring
    · change a.pf.feesCum + fees.total = feesOf (a.result.trades ++ [_])
      rw [feesOf_append, feesOf_singleton, ha.fees]
  | @sold bar shares hsell =>
    constructor
    · change a.pf.cash + (_ - _) = initialCash - amountOf .buy (a.result.trades ++ [_]) +
        amountOf .sell (a.result.trades ++ [_]) - feesOf (a.result.trades ++ [_])
      rw [ha.cash, amountOf_append, amountOf_append, feesOf_append, amountOf_singleton,
        amountOf_singleton, feesOf_singleton]
      simp only [reduceCtorEq, if_true, if_false]
      ring
    · change a.pf.feesCum + _ = feesOf (a.result.trades ++ [_])
      rw [feesOf_append, feesOf_singleton, ha.fees]

end BacktestEngine

theorem Holds.stable {F : Type} : BacktestEngine.Stable (Holds (F := F)) where
  opened a h := ⟨h.shares, le_rfl⟩
  marked a points h := ⟨h.shares, h.sellable⟩

theorem Booked.stable {initialCash : ℚ} : BacktestEngine.Stable (Booked initialCash) where
  opened a h := ⟨h.cash, h.fees⟩
  marked a points h := ⟨h.cash, h.fees⟩

/-! ## The claim on runs -/

section Runs

/-- The orders that the strategy answered with at a bar. -/
def ordersAt {C : Type} (log : List (C × List Order)) (t : ℕ) : List Order :=
  ((log[t]?).map Prod.snd).getD []

/-- The orders that the strategy answered with at the bar before. -/
def priorOrders {C : Type} (log : List (C × List Order)) : ℕ → List Order
  | 0 => []
  | t + 1 => ordersAt log t

/-- The orders with an execution attempt at a bar. -/
def dueOrders {C : Type} (policy : ExecutionPolicy) (log : List (C × List Order)) (t : ℕ) :
    List Order :=
  if policy = .sameClose then ordersAt log t else priorOrders log t

/-- The close of the last bar that traded. -/
def lastGoodClose (bars : List (Bar ℚ)) (first : Bar ℚ) : ℚ :=
  (((bars.filter (!·.suspended)).getLast?).map Bar.close).getD first.close

/-- An equity point follows from the fills so far and the mark. -/
structure EquityPoint.Follows (initialCash : ℚ) (fills : List (Fill ℚ)) (mark : ℚ)
    (point : EquityPoint ℚ) : Prop where
  cash : point.cash = initialCash - amountOf .buy fills + amountOf .sell fills - feesOf fills
  shares : point.shares.toNat + sharesOf .sell fills = sharesOf .buy fills
  fees : point.feesCum = feesOf fills
  close : point.close = mark
  equity : point.equity = point.cash + point.shares.toNat * point.close

theorem ordersAt_append {C : Type} {log more : List (C × List Order)} {t : ℕ}
    (ht : t < log.length) : ordersAt (log ++ more) t = ordersAt log t := by
  rw [ordersAt, List.getElem?_append_left ht]
  rfl

theorem dueOrders_append {C : Type} {policy : ExecutionPolicy} {log more : List (C × List Order)}
    {t : ℕ} (ht : t < log.length ∨ policy ≠ .sameClose ∧ t ≤ log.length) :
    dueOrders policy (log ++ more) t = dueOrders policy log t := by
  rw [dueOrders, dueOrders]
  by_cases hpolicy : policy = .sameClose
  · rw [if_pos hpolicy, if_pos hpolicy, ordersAt_append]
    rcases ht with ht | ht
    · exact ht
    · exact absurd hpolicy ht.1
  · rw [if_neg hpolicy, if_neg hpolicy]
    cases t with
    | zero => rfl
    | succ t => exact ordersAt_append (by omega)

variable {σ : Type} {e : BacktestEngine ℚ} {S : Strategy ℚ σ} {series : PriceSeries ℚ} {s : σ}
  {first : Bar ℚ} {rest : List (Bar ℚ)}

/-- What the rounds of a recorded walk add up to; `rounds` are the answers to the orders due at each
bar. -/
structure Conserved (e : BacktestEngine ℚ) (bars : List (Bar ℚ)) (first : Bar ℚ) (n : ℕ)
    (rounds : List (List (OrderAnswer ℚ)))
    (w : Walk ℚ (σ × List (StrategyContext ℚ × List Order))) : Prop where
  logged : w.strategy.2.length = n
  answers : rounds.length = n
  points : w.account.result.equity.length = n
  pending : e.config.execution ≠ .sameClose →
    (if 0 < n then w.pending else []) = dueOrders e.config.execution w.strategy.2 n
  trades : w.account.result.trades = fillsIn rounds.flatten
  rejections : w.account.result.rejections = rejectionsIn rounds.flatten
  answered : ∀ t bar, t < n → bars[t]? = some bar → ∃ round, rounds[t]? = some round ∧
    List.Forall₂ (Answers bar.date) (dueOrders e.config.execution w.strategy.2 t) round
  mark : w.lastClose = lastGoodClose (bars.take n) first
  equity : ∀ (t : ℕ) (point : EquityPoint ℚ), w.account.result.equity[t]? = some point →
    point.Follows e.config.initialCash (fillsIn (rounds.take (t + 1)).flatten)
      (lastGoodClose (bars.take (t + 1)) first)

theorem lastGoodClose_succ {bars : List (Bar ℚ)} {n : ℕ} {bar : Bar ℚ} (hbar : bars[n]? = some bar) :
    lastGoodClose (bars.take (n + 1)) first =
      if bar.suspended then lastGoodClose (bars.take n) first else bar.close := by
  have htake : bars.take (n + 1) = bars.take n ++ [bar] := by
    rw [List.take_add_one, hbar]
    rfl
  rw [lastGoodClose, htake, List.filter_append]
  cases hsuspended : bar.suspended with
  | false => simp [hsuspended]
  | true => simp [hsuspended, lastGoodClose]

/-- **A round conserves.** -/
theorem Conserved.round {n : ℕ} {rounds : List (List (OrderAnswer ℚ))}
    {w w' : Walk ℚ (σ × List (StrategyContext ℚ × List Order))}
    (h : Conserved e series.bars first n rounds w)
    (hround : e.onBar S.recorded series.bars n w = some w')
    (hbooks : Holds w'.account ∧ Booked e.config.initialCash w'.account) :
    ∃ answers, Conserved e series.bars first (n + 1) (rounds ++ [answers]) w' := by
  obtain ⟨bar, account, hbar, hall, rfl⟩ := BacktestEngine.onBar_eq_some.1 hround
  obtain ⟨answers, hanswers, htrades, hrejections⟩ := BacktestEngine.executeAll_answers hbar hall
  have hequity := (BacktestEngine.executeAll_grows hbar hall).2
  rw [BacktestEngine.openBar_result] at htrades hrejections hequity
  set ctx := e.asked series.bars n (e.openBar bar w) account with hctx
  set orders := (S.onBar w.strategy.1 ctx n).2 with horders
  have hlog : (e.traded S.recorded series.bars n (e.openBar bar w) account).strategy.2 =
      w.strategy.2 ++ [(ctx, orders)] := by
    have h := (BacktestEngine.traded_recorded e S series.bars n (e.openBar bar w) account).2
    rwa [BacktestEngine.openBar_strategy] at h
  have hlast : ordersAt (w.strategy.2 ++ [(ctx, orders)]) n = orders := by
    rw [ordersAt, List.getElem?_append_right h.logged.le, h.logged, Nat.sub_self]
    rfl
  -- what is due at the bar, by the record
  have hdue : e.due S.recorded series.bars n (e.openBar bar w) =
      dueOrders e.config.execution (w.strategy.2 ++ [(ctx, orders)]) n := by
    cases hpolicy : e.config.execution with
    | sameClose =>
      have hseen : ctx = e.ctx series.bars n (e.openBar bar w) := by
        rw [hctx, BacktestEngine.asked, hpolicy]
      rw [dueOrders, if_pos rfl, hlast, BacktestEngine.due, hpolicy, horders, hseen]
      simp only [Strategy.recorded, BacktestEngine.openBar_strategy]
    | nextOpen =>
      have hpending := h.pending (by rw [hpolicy]; decide)
      rw [hpolicy] at hpending
      rw [dueOrders_append (.inr ⟨by decide, h.logged.ge⟩), ← hpending, BacktestEngine.due, hpolicy,
        BacktestEngine.openBar_pending]
    | nextClose =>
      have hpending := h.pending (by rw [hpolicy]; decide)
      rw [hpolicy] at hpending
      rw [dueOrders_append (.inr ⟨by decide, h.logged.ge⟩), ← hpending, BacktestEngine.due, hpolicy,
        BacktestEngine.openBar_pending]
  have hflat : fillsIn (rounds ++ [answers]).flatten = fillsIn rounds.flatten ++ fillsIn answers := by
    simp [fillsIn]
  have htrades' : account.result.trades = fillsIn (rounds ++ [answers]).flatten := by
    rw [htrades, h.trades, hflat]
  have hmark : (if bar.suspended then (e.openBar bar w).lastClose else bar.close) =
      lastGoodClose (series.bars.take (n + 1)) first := by
    rw [lastGoodClose_succ hbar, BacktestEngine.openBar_lastClose, h.mark]
  refine ⟨answers, ?_⟩
  constructor
  · change (e.traded S.recorded series.bars n (e.openBar bar w) account).strategy.2.length = n + 1
    rw [hlog, List.length_append, h.logged]
    rfl
  · rw [List.length_append, h.answers]
    rfl
  · change (account.result.equity ++ [_]).length = n + 1
    rw [List.length_append, hequity, h.points]
    rfl
  · intro hpolicy
    change (if 0 < n + 1 then (e.traded S.recorded series.bars n (e.openBar bar w) account).pending
      else []) = dueOrders _ (e.traded S.recorded series.bars n (e.openBar bar w) account).strategy.2 _
    rw [hlog, if_pos (Nat.succ_pos n), dueOrders, if_neg hpolicy, priorOrders, hlast]
    simp only [BacktestEngine.traded, if_neg hpolicy, Strategy.recorded,
      BacktestEngine.openBar_strategy]
    rfl
  · exact htrades'
  · change account.result.rejections = rejectionsIn (rounds ++ [answers]).flatten
    rw [hrejections, h.rejections]
    simp [rejectionsIn]
  · intro t b ht hb
    change ∃ round, _ ∧ List.Forall₂ _ (dueOrders _
      (e.traded S.recorded series.bars n (e.openBar bar w) account).strategy.2 t) round
    rw [hlog]
    rcases Nat.lt_or_ge t n with htn | htn
    · obtain ⟨round, hget, hround⟩ := h.answered t b htn hb
      refine ⟨round, ?_, ?_⟩
      · rw [List.getElem?_append_left (by rw [h.answers]; exact htn), hget]
      · rwa [dueOrders_append (.inl (by rw [h.logged]; exact htn))]
    · obtain rfl : t = n := by omega
      rw [hbar] at hb
      obtain rfl := Option.some.inj hb
      refine ⟨answers, ?_, ?_⟩
      · rw [List.getElem?_append_right h.answers.le, h.answers, Nat.sub_self]
        rfl
      · rwa [← hdue]
  · exact hmark
  · intro t point hpoint
    change (account.result.equity ++ [_])[t]? = some point at hpoint
    rw [hequity] at hpoint
    rcases Nat.lt_or_ge t n with htn | htn
    · rw [List.getElem?_append_left (by rw [h.points]; exact htn)] at hpoint
      rw [List.take_append_of_le_length (by rw [h.answers]; omega)]
      exact h.equity t point hpoint
    · obtain rfl : t = n := by
        have := (List.getElem?_eq_some_iff.1 hpoint).1
        rw [List.length_append, List.length_singleton, h.points] at this
        omega
      rw [List.getElem?_append_right h.points.le, h.points, Nat.sub_self] at hpoint
      obtain rfl := Option.some.inj hpoint
      rw [List.take_of_length_le (by rw [List.length_append, h.answers]; rfl), ← htrades']
      exact ⟨hbooks.2.cash, hbooks.1.shares, hbooks.2.fees, hmark, rfl⟩

/-- **A run conserves**: `log` holds what the strategy was asked and answered at each bar, `rounds`
the answers to the orders due at each bar. The logs of the run are these answers, each order has one,
and each equity point follows from the fills so far. -/
def RunConserves (e : BacktestEngine ℚ) (S : Strategy ℚ σ) (series : PriceSeries ℚ) (s s' : σ)
    (r : BacktestResult ℚ) : Prop :=
  ∃ (first : Bar ℚ) (log : List (StrategyContext ℚ × List Order))
    (rounds : List (List (OrderAnswer ℚ))),
    series.bars.head? = some first ∧
    e.run S.recorded series (s, []) = some (.ok (r, (s', log))) ∧
    log.length = series.bars.length ∧ rounds.length = series.bars.length ∧
    r.equity.length = series.bars.length ∧
    r.trades = fillsIn rounds.flatten ∧ r.rejections = rejectionsIn rounds.flatten ∧
    (∀ t bar, series.bars[t]? = some bar → ∃ round, rounds[t]? = some round ∧
      List.Forall₂ (Answers bar.date) (dueOrders e.config.execution log t) round) ∧
    ∀ (t : ℕ) (point : EquityPoint ℚ), r.equity[t]? = some point →
      point.Follows e.config.initialCash (fillsIn (rounds.take (t + 1)).flatten)
        (lastGoodClose (series.bars.take (t + 1)) first)

/-- The books of a walk whose attempts do not overflow. -/
theorem walk_booked (hbars : series.bars = first :: rest)
    (hfits : ∀ x ∈ e.attempts S series s, x.NoOverflow e series.bars) {n : ℕ} {w : Walk ℚ σ}
    (hw : e.walk S series.bars first s n = some w) :
    Holds w.account ∧ Booked e.config.initialCash w.account := by
  constructor
  · refine BacktestEngine.walk_invariant Holds.stable hbars ⟨rfl, le_rfl⟩ ?_ hw
    exact fun x hx hbefore a' h => h.holds (hfits x hx) hbefore
  · refine BacktestEngine.walk_invariant Booked.stable hbars ⟨?_, rfl⟩ ?_ hw
    · change e.config.initialCash = e.config.initialCash - amountOf .buy [] + amountOf .sell [] -
        feesOf []
      simp [amountOf, feesOf]
    · exact fun x _ hbefore a' h => h.booked hbefore

/-- **Ledger and order conservation** of the runs in which no buy overflows the share count. -/
theorem ledger_conserves (e : BacktestEngine ℚ) (S : Strategy ℚ σ) (series : PriceSeries ℚ) (s : σ)
    {s' : σ} {r : BacktestResult ℚ} (hrun : e.run S series s = some (.ok (r, s')))
    (hfits : ∀ x ∈ e.attempts S series s, x.NoOverflow e series.bars) :
    RunConserves e S series s s' r := by
  obtain ⟨first, rest, w, hbars, hw, rfl, rfl⟩ := BacktestEngine.run_eq_ok hrun
  have hconserved : ∀ (n : ℕ) (w : Walk ℚ (σ × List (StrategyContext ℚ × List Order))),
      e.walk S.recorded series.bars first (s, []) n = some w →
      ∃ rounds, Conserved e series.bars first n rounds w := by
    intro n
    induction n with
    | zero =>
      intro w h
      obtain rfl := Option.some.inj h
      refine ⟨[], rfl, rfl, rfl, fun hpolicy => ?_, rfl, rfl, fun t _ ht => absurd ht (Nat.not_lt_zero t),
        rfl, fun t point hpoint => by cases hpoint⟩
      rw [if_neg (lt_irrefl 0), dueOrders, if_neg hpolicy]
      rfl
    | succ n ih =>
      intro w h
      obtain ⟨w₁, hw₁, hround⟩ := BacktestEngine.walk_succ_eq_some.1 h
      obtain ⟨rounds, hrounds⟩ := ih w₁ hw₁
      have hbooks := walk_booked hbars hfits (BacktestEngine.walk_forget h)
      obtain ⟨answers, hanswers⟩ := hrounds.round hround hbooks
      exact ⟨rounds ++ [answers], hanswers⟩
  obtain ⟨w', hw', rfl⟩ := BacktestEngine.walk_recorded hw
  obtain ⟨rounds, h⟩ := hconserved _ w' hw'
  refine ⟨first, w'.strategy.2, rounds, by rw [hbars]; rfl, BacktestEngine.run_of_walk hbars hw',
    h.logged, h.answers, h.points, h.trades, h.rejections, fun t bar hbar => ?_, h.equity⟩
  exact h.answered t bar (List.getElem?_eq_some_iff.1 hbar).1 hbar

/-- A buy of 200 shares, and a sell of half of them. -/
theorem ledger_conserves_two_orders : ∃ r s', RunConserves (mainEngine [] 1000 (by norm_num) .nextOpen
    .raw []) (scripted [[.buy (.shares 200)], [.sell (.shares 100)]]) (flatSeries 1) () s' r := by
  have hrun : (returned ((mainEngine [] 1000 (by norm_num) .nextOpen .raw []).run
      (scripted [[.buy (.shares 200)], [.sell (.shares 100)]]) (flatSeries 1) ())).isSome := by
    decide +kernel
  have hfits : ((mainEngine [] 1000 (by norm_num) .nextOpen .raw []).attempts
      (scripted [[.buy (.shares 200)], [.sell (.shares 100)]]) (flatSeries 1) ()).all
        (·.fits (mainEngine [] 1000 (by norm_num) .nextOpen .raw []) (flatSeries 1).bars) := by
    decide +kernel
  obtain ⟨⟨r, s'⟩, hr⟩ := Option.isSome_iff_exists.1 hrun
  exact ⟨r, s', ledger_conserves _ _ _ _ (returned_eq_some.1 hr) fun x hx =>
    Attempt.noOverflow_of_fits (List.all_eq_true.1 hfits x hx)⟩

/-- The last equity point of a run that conserves holds what all fills leave. -/
theorem RunConserves.last_shares {s' : σ} {r : BacktestResult ℚ}
    (h : RunConserves e S series s s' r) {point : EquityPoint ℚ} (hlast : r.equity.getLast? = some point) :
    point.shares.toNat + sharesOf .sell r.trades = sharesOf .buy r.trades := by
  obtain ⟨first, log, rounds, -, -, -, hrounds, hpoints, htrades, -, -, hequity⟩ := h
  rw [List.getLast?_eq_getElem?] at hlast
  have hfollows := (hequity _ point hlast).shares
  have hpos := (List.getElem?_eq_some_iff.1 hlast).1
  rwa [List.take_of_length_le (by omega), ← htrades] at hfollows

/-- Two buys of all that 10^11 of cash affords at a price of 1 wrap the share count. -/
theorem overflow_loses_shares : ¬∀ (e : BacktestEngine ℚ) (S : Strategy ℚ Unit)
    (series : PriceSeries ℚ) (s' : Unit) (r : BacktestResult ℚ),
    e.run S series () = some (.ok (r, s')) → RunConserves e S series () s' r := by
  intro h
  have hrun : (returned ((mainEngine [] (10 ^ 11) (by norm_num) .nextOpen .raw []).run
      (scripted [[.buy .max, .buy .max]]) (flatSeries 1) ())).any (fun x =>
        x.1.equity.getLast?.any fun point =>
          point.shares.toNat + sharesOf .sell x.1.trades ≠ sharesOf .buy x.1.trades) = true := by
    decide +kernel
  obtain ⟨⟨r, s'⟩, hr, hprop⟩ := (Option.any_eq_true _ _).1 hrun
  obtain ⟨point, hpoint, hne⟩ := (Option.any_eq_true _ _).1 hprop
  exact of_decide_eq_true hne ((h _ _ _ s' r (returned_eq_some.1 hr)).last_shares hpoint)

end Runs

/-! ## Solvency -/

section Solvency

variable {σ : Type} {e : BacktestEngine ℚ} {S : Strategy ℚ σ} {series : PriceSeries ℚ} {s s' : σ}
  {r : BacktestResult ℚ} {bars : List (Bar ℚ)}

/-- Cash in hand and proceeds cover the fees of a sell. -/
def Attempt.SellCovered (e : BacktestEngine ℚ) (bars : List (Bar ℚ)) (x : Attempt ℚ) : Prop :=
  ∀ bar shares, e.Sells bars x.t x.rawPrice x.before x.order bar shares →
    (e.sellFees bar.date shares (e.sellPrice x.rawPrice)).total ≤
      x.before.pf.cash + shares.toNat * e.sellPrice x.rawPrice + eps

/-- Cash is not below zero, up to the tolerance, now and after each fill. -/
structure Solvent (a : Account ℚ) : Prop where
  cash : -eps ≤ a.pf.cash
  fills : ∀ f ∈ a.result.trades, -eps ≤ f.cashAfter

theorem Solvent.stable : BacktestEngine.Stable Solvent where
  opened a h := ⟨h.cash, h.fills⟩
  marked a points h := ⟨h.cash, h.fills⟩

theorem Solvent.book {a : Account ℚ} {pf : Portfolio ℚ} {fill : Fill ℚ} (h : Solvent a)
    (hcash : -eps ≤ pf.cash) (hfill : fill.cashAfter = pf.cash) : Solvent (a.book pf fill) where
  cash := hcash
  fills f hf := by
    rcases List.mem_append.1 hf with hf | hf
    · exact h.fills f hf
    · obtain rfl := List.mem_singleton.1 hf
      rw [hfill]
      exact hcash

/-- A buy is covered by the check of the engine, a sell by the condition. -/
theorem BacktestEngine.Attempted.solvent {x : Attempt ℚ} {a' : Account ℚ}
    (h : e.Attempted bars x.t x.rawPrice x.before x.order a') (hcovered : x.SellCovered e bars)
    (ha : Solvent x.before) : Solvent a' := by
  cases h with
  | rejected reason hbar => exact ⟨ha.cash, ha.fills⟩
  | bought hbuy =>
    obtain ⟨-, -, hle⟩ := BacktestEngine.fitBuy_covered hbuy.fit
    refine ha.book ?_ rfl
    simp only [Portfolio.bought]
    linarith
  | sold hsell =>
    have hle := hcovered _ _ hsell
    refine ha.book ?_ rfl
    simp only [Portfolio.sold, ofU32_exact]
    linarith

/-- A sell that passes the gates is filled. -/
theorem executeOne_of_sells {t : ℕ} {rawPrice : ℚ} {a a' : Account ℚ} {order : Order} {bar : Bar ℚ}
    {shares : UInt32} (h : e.Sells bars t rawPrice a order bar shares)
    (hone : e.executeOne bars t rawPrice a order = some a') :
    ∃ f ∈ a'.result.trades, f.cashAfter = a.pf.cash + (ofU32 shares * e.sellPrice rawPrice -
      (e.sellFees bar.date shares (e.sellPrice rawPrice)).total) := by
  rw [BacktestEngine.executeOne, h.at'] at hone
  simp only [Option.bind_eq_bind, Option.bind_some, h.trading, Bool.false_eq_true, if_false,
    h.side] at hone
  obtain ⟨close, hclose, hone⟩ := Option.bind_eq_some_iff.1 hone
  rw [if_neg (h.gate close hclose)] at hone
  obtain rfl := Option.some.inj hone
  have hsize : BacktestEngine.sellSize a.pf.sellable order.qty ≠ 0 := by
    rw [← h.size]
    exact h.pos
  have hsellable : a.pf.sellable ≠ 0 := by
    intro h₀
    have hle := sellSize_le a.pf.sellable order.qty
    have hpos := U32.toNat_pos hsize
    rw [h₀] at hle hpos
    exact absurd hle (not_le.2 hpos)
  rw [BacktestEngine.executeSell, if_neg h.held, if_neg hsellable]
  dsimp only
  rw [if_neg hsize]
  refine ⟨_, List.mem_append_right _ (List.mem_singleton_self _), ?_⟩
  rw [h.size]
  rfl

/-- The marks of a run over positive prices are positive, so equity is at least cash. -/
theorem walk_equity {first : Bar ℚ} {rest : List (Bar ℚ)} (hbars : series.bars = first :: rest)
    (hprices : ∀ b ∈ series.bars, 0 < b.close)
    (hcash : ∀ {n : ℕ} {w : Walk ℚ σ}, e.walk S series.bars first s n = some w → -eps ≤ w.account.pf.cash)
    {n : ℕ} : ∀ {w : Walk ℚ σ}, e.walk S series.bars first s n = some w →
      0 < w.lastClose ∧ ∀ p ∈ w.account.result.equity, -eps ≤ p.equity := by
  induction n with
  | zero =>
    intro w h
    obtain rfl := Option.some.inj h
    exact ⟨hprices first (by rw [hbars]; exact List.mem_cons_self), fun p hp => by cases hp⟩
  | succ n ih =>
    intro w h
    have hafter := hcash h
    obtain ⟨w₁, hw₁, hround⟩ := BacktestEngine.walk_succ_eq_some.1 h
    obtain ⟨hlast, hpoints⟩ := ih hw₁
    obtain ⟨bar, account, hbar, hall, rfl⟩ := BacktestEngine.onBar_eq_some.1 hround
    have hequity := (BacktestEngine.executeAll_grows hbar hall).2
    rw [BacktestEngine.openBar_result] at hequity
    have hmark : 0 < if bar.suspended then (e.openBar bar w₁).lastClose else bar.close := by
      rw [BacktestEngine.openBar_lastClose]
      split
      · exact hlast
      · exact hprices bar (List.mem_of_getElem? hbar)
    refine ⟨hmark, fun p hp => ?_⟩
    rcases List.mem_append.1 hp with hp | hp
    · exact hpoints p (hequity ▸ hp)
    · obtain rfl := List.mem_singleton.1 hp
      have hshares : (0 : ℚ) ≤ account.pf.shares.toNat := Nat.cast_nonneg _
      have hvalue := mul_nonneg hshares hmark.le
      have hafter : -eps ≤ account.pf.cash := hafter
      change -eps ≤ account.pf.cash + account.pf.shares.toNat *
        (if bar.suspended then (e.openBar bar w₁).lastClose else bar.close)
      linarith

/-- **Solvency**: over positive prices, cash is never below the tolerance after a fill and equity is
never below it at an equity point exactly when cash and proceeds cover the fees of each sell. -/
theorem solvent_iff (e : BacktestEngine ℚ) (S : Strategy ℚ σ) (series : PriceSeries ℚ) (s : σ)
    {s' : σ} {r : BacktestResult ℚ} (hrun : e.run S series s = some (.ok (r, s')))
    (hprices : ∀ b ∈ series.bars, 0 < b.close) :
    ((∀ f ∈ r.trades, -eps ≤ f.cashAfter) ∧ ∀ p ∈ r.equity, -eps ≤ p.equity) ↔
      ∀ x ∈ e.attempts S series s, x.SellCovered e series.bars := by
  constructor
  · rintro ⟨hfills, -⟩ x hx bar shares hsell
    obtain ⟨a', hone, hkept⟩ := BacktestEngine.attempt_returns hrun hx
    obtain ⟨f, hf, hcash⟩ := executeOne_of_sells hsell hone
    have hle := hfills f (hkept f hf)
    rw [hcash, ofU32_exact] at hle
    linarith
  · intro hcovered
    obtain ⟨first, rest, w, hbars, hw, rfl, rfl⟩ := BacktestEngine.run_eq_ok hrun
    have hstart : Solvent (e.start series.bars first s).account := by
      refine ⟨?_, fun f hf => by cases hf⟩
      have hfunded := not_le.1 e.funded
      rw [lit_exact] at hfunded
      change -eps ≤ e.config.initialCash
      have heps : (0 : ℚ) ≤ eps := by
        rw [eps, lit_exact]
        norm_num
      linarith
    have hwalk : ∀ {n : ℕ} {w : Walk ℚ σ}, e.walk S series.bars first s n = some w →
        Solvent w.account :=
      fun h => BacktestEngine.walk_invariant Solvent.stable hbars hstart
        (fun x hx hbefore a' h => h.solvent (hcovered x hx) hbefore) h
    exact ⟨(hwalk hw).fills, (walk_equity hbars hprices (fun h => (hwalk h).cash) hw).2⟩

/-- A commission of 0.025% with a minimum of 5, on both sides. -/
def brokerFees : List (FeeRule ℚ) :=
  [{ kind := .commission, rate := 1 / 4000, side := .both, minFee := some 5, markets := [],
     effectiveDate := 0 }]

/-- A buy, and a sell of the whole position, with these fees. -/
theorem solvent_iff_round_trip : ∃ r s',
    (mainEngine brokerFees 106 (by norm_num) .nextOpen .raw []).run
      (scripted [[.buy (.shares 100)], [.sell .max]]) (flatSeries 1) () = some (.ok (r, s')) ∧
    (((∀ f ∈ r.trades, -eps ≤ f.cashAfter) ∧ ∀ p ∈ r.equity, -eps ≤ p.equity) ↔
      ∀ x ∈ (mainEngine brokerFees 106 (by norm_num) .nextOpen .raw []).attempts
        (scripted [[.buy (.shares 100)], [.sell .max]]) (flatSeries 1) (),
        x.SellCovered (mainEngine brokerFees 106 (by norm_num) .nextOpen .raw [])
          (flatSeries 1).bars) := by
  have hrun : (returned ((mainEngine brokerFees 106 (by norm_num) .nextOpen .raw []).run
      (scripted [[.buy (.shares 100)], [.sell .max]]) (flatSeries 1) ())).isSome := by
    decide +kernel
  obtain ⟨⟨r, s'⟩, hr⟩ := Option.isSome_iff_exists.1 hrun
  have hr := returned_eq_some.1 hr
  exact ⟨r, s', hr, solvent_iff _ _ _ _ hr (by simp [flatSeries, Bar.flat])⟩

/-- One share sold for 1 with a minimum commission of 5, and 1 of cash left, leaves 3 to pay. -/
theorem sell_below_fees : ¬∀ (e : BacktestEngine ℚ) (S : Strategy ℚ Unit) (series : PriceSeries ℚ)
    (s' : Unit) (r : BacktestResult ℚ),
    (∀ b ∈ series.bars, 0 < b.openPrice ∧ 0 < b.close ∧ 0 < b.high ∧ 0 < b.low) →
    (∀ fee ∈ e.rules.fees, 0 ≤ fee.rate ∧ ∀ minFee ∈ fee.minFee, 0 ≤ minFee) →
    0 ≤ e.config.slippageBps → e.config.slippageBps < 10000 →
    e.run S series () = some (.ok (r, s')) →
    (∀ f ∈ r.trades, -eps ≤ f.cashAfter) ∧ ∀ p ∈ r.equity, -eps ≤ p.equity := by
  intro h
  have hrun : (returned ((mainEngine brokerFees 106 (by norm_num) .nextOpen .raw []).run
      (scripted [[.buy (.shares 100)], [.sell (.shares 1)]]) (flatSeries 1) ())).any (fun x =>
        x.1.trades.any fun f => f.cashAfter = -3) = true := by
    decide +kernel
  obtain ⟨⟨r, s'⟩, hr, hprop⟩ := (Option.any_eq_true _ _).1 hrun
  obtain ⟨f, hf, hcash⟩ := List.any_eq_true.1 hprop
  have hle := (h _ _ _ s' r (by simp [flatSeries, Bar.flat]) (by simp [mainEngine, brokerFees])
    le_rfl (by norm_num [mainEngine]) (returned_eq_some.1 hr)).1 f hf
  rw [of_decide_eq_true hcash, eps, lit_exact] at hle
  norm_num at hle

end Solvency

end Astock
