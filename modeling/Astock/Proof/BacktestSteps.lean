import Astock.Lib.Trace
import Astock.Spec.Backtest

/-!
# Steps of the backtesting engine

* `attempted_of_executeOne`: what one execution attempt can do: a rejection, a buy or a sell.
* `onBar_eq_some`: a round of the loop over the bars in closed form, for every policy: what is due at
  the bar is executed, and the strategy is asked once.
* `Account.Grows`, `walk_grows`: a run appends to its logs, and dates what it appends on its bars.
* `attempts`: the execution attempts of a run, each with the account before it.
-/

namespace Astock

open Float64 Sorted

variable {F σ : Type}

/-! ## One attempt -/

/-- A fill is booked. -/
def Account.book (a : Account F) (pf : Portfolio F) (fill : Fill F) : Account F where
  pf := pf
  result := { a.result with trades := a.result.trades ++ [fill] }

variable [Float64 F]

def Portfolio.bought (pf : Portfolio F) (shares : UInt32) (amount : F) (fees : TradeCost F) :
    Portfolio F :=
  { pf with
    cash := pf.cash - (amount + fees.total)
    shares := pf.shares + shares
    costBasis := pf.costBasis + amount
    feesCum := pf.feesCum + fees.total }

def Portfolio.sold (pf : Portfolio F) (shares : UInt32) (amount : F) (fees : TradeCost F) :
    Portfolio F where
  cash := pf.cash + (amount - fees.total)
  shares := pf.shares - shares
  sellable := pf.sellable - shares
  costBasis :=
    if pf.shares - shares = 0 then lit 0
    else pf.costBasis - pf.costBasis / ofU32 pf.shares * ofU32 shares
  feesCum := pf.feesCum + fees.total

namespace BacktestEngine

variable (e : BacktestEngine F)

def buyPrice (rawPrice : F) : F := rawPrice * (lit 1 + e.slip)

def sellPrice (rawPrice : F) : F := rawPrice * (lit 1 - e.slip)

/-- The fees of a sell. -/
def sellFees (date : ℤ) (shares : UInt32) (price : F) : TradeCost F :=
  e.rules.tradeCostAt .sell (ofU32 shares * price) (some e.board.market) date

/-- A buy attempt that passes the gates, with the shares, amount and fees that it gets. -/
structure Buys (bars : List (Bar F)) (t : ℕ) (rawPrice : F) (a : Account F) (order : Order)
    (bar : Bar F) (shares : UInt32) (amount : F) (fees : TradeCost F) : Prop where
  at' : bars[t]? = some bar
  side : order.side = .buy
  trading : bar.suspended = false
  gate : ∀ close, preClose bars t = some close →
    ¬e.board.limitUpPrice close e.config.isSt - eps ≤ rawPrice
  fit : e.fitBuy a.pf.cash order.qty bar.date (e.buyPrice rawPrice) =
    some (.ok (shares, amount, fees))

/-- A sell attempt that passes the gates, with the shares that it sells. -/
structure Sells (bars : List (Bar F)) (t : ℕ) (rawPrice : F) (a : Account F) (order : Order)
    (bar : Bar F) (shares : UInt32) : Prop where
  at' : bars[t]? = some bar
  side : order.side = .sell
  trading : bar.suspended = false
  gate : ∀ close, preClose bars t = some close →
    ¬rawPrice ≤ e.board.limitDownPrice close e.config.isSt + eps
  held : a.pf.shares ≠ 0
  size : shares = sellSize a.pf.sellable order.qty
  pos : shares ≠ 0

/-- **What an execution attempt can do** to the account. -/
inductive Attempted (bars : List (Bar F)) (t : ℕ) (rawPrice : F) (a : Account F) (order : Order) :
    Account F → Prop
  | rejected {bar : Bar F} (reason : RejectReason) (hbar : bars[t]? = some bar) :
    Attempted bars t rawPrice a order (a.reject bar.date order reason)
  | bought {bar : Bar F} {shares : UInt32} {amount : F} {fees : TradeCost F}
    (h : e.Buys bars t rawPrice a order bar shares amount fees) :
    Attempted bars t rawPrice a order (a.book (a.pf.bought shares amount fees)
      { date := bar.date, side := .buy, shares := shares, price := e.buyPrice rawPrice,
        amount := amount, fees := fees, reason := order.reason,
        cashAfter := (a.pf.bought shares amount fees).cash })
  | sold {bar : Bar F} {shares : UInt32} (h : e.Sells bars t rawPrice a order bar shares) :
    Attempted bars t rawPrice a order (a.book
      (a.pf.sold shares (ofU32 shares * e.sellPrice rawPrice)
        (e.sellFees bar.date shares (e.sellPrice rawPrice)))
      { date := bar.date, side := .sell, shares := shares, price := e.sellPrice rawPrice,
        amount := ofU32 shares * e.sellPrice rawPrice,
        fees := e.sellFees bar.date shares (e.sellPrice rawPrice), reason := order.reason,
        cashAfter := a.pf.cash + (ofU32 shares * e.sellPrice rawPrice -
          (e.sellFees bar.date shares (e.sellPrice rawPrice)).total) })

variable {e} {bars : List (Bar F)} {t : ℕ} {rawPrice : F} {a a' : Account F} {order : Order}

theorem attempted_of_executeOne (h : e.executeOne bars t rawPrice a order = some a') :
    e.Attempted bars t rawPrice a order a' := by
  rw [executeOne] at h
  obtain ⟨bar, hbar, h⟩ := Option.bind_eq_some_iff.1 h
  split at h
  · cases h
    exact .rejected _ hbar
  rename_i hsuspended
  have hopen : bar.suspended = false := by simpa using hsuspended
  obtain ⟨close, hclose, h⟩ := Option.bind_eq_some_iff.1 h
  have hgates : ∀ {P : F → Prop}, ¬P close → ∀ c, preClose bars t = some c → ¬P c := by
    intro P hP c hc
    rw [hclose] at hc
    rwa [← Option.some.inj hc]
  cases hside : order.side with
  | buy =>
    simp only [hside] at h
    split at h
    · cases h
      exact .rejected _ hbar
    rename_i hgate
    obtain ⟨fit, hfit, h⟩ := Option.map_eq_some_iff.1 h
    cases fit with
    | error reason =>
      cases h
      exact .rejected _ hbar
    | ok fitted =>
      cases h
      exact .bought ⟨hbar, hside, hopen, hgates hgate, hfit⟩
  | sell =>
    simp only [hside] at h
    split at h
    · cases h
      exact .rejected _ hbar
    rename_i hgate
    obtain rfl := Option.some.inj h
    rw [executeSell]
    split
    · exact .rejected _ hbar
    rename_i hheld
    split
    · exact .rejected _ hbar
    dsimp only
    split
    · exact .rejected _ hbar
    rename_i hpos
    exact .sold ⟨hbar, hside, hopen, hgates hgate, hheld, rfl, hpos⟩

/-- A fitted buy is one whose amount and fees the cash covers. -/
theorem fitLots_eq_some {cash price : F} {date : ℤ} {amount : F} {fees : TradeCost F}
    {shares : UInt32} : ∀ {rounds : ℕ} {size : UInt32},
    e.fitLots cash date price rounds size = some (some (shares, amount, fees)) →
    amount = ofU32 shares * price ∧
      fees = e.rules.tradeCostAt .buy amount (some e.board.market) date ∧
      amount + fees.total ≤ cash + eps := by
  intro rounds
  induction rounds with
  | zero => intro size h; cases h
  | succ rounds ih =>
    intro size h
    rw [fitLots] at h
    split at h
    · rename_i hle
      cases h
      exact ⟨rfl, rfl, hle⟩
    · split at h
      · cases h
      · exact ih h

theorem fitBuy_eq_ok {cash price : F} {date : ℤ} {qty : Qty} {shares : UInt32} {amount : F}
    {fees : TradeCost F} (h : e.fitBuy cash qty date price = some (.ok (shares, amount, fees))) :
    ∃ size, e.buySize cash qty price = some (.ok size) ∧ ¬size < e.board.minLot ∧
      e.fitLots cash date price (2 ^ 32) size = some (some (shares, amount, fees)) := by
  rw [fitBuy] at h
  obtain ⟨size, hsize, h⟩ := Option.bind_eq_some_iff.1 h
  cases size with
  | error reason => cases h
  | ok size =>
    dsimp only at h
    split at h
    · cases h
    rename_i hmin
    obtain ⟨fitted, hfitted, h⟩ := Option.map_eq_some_iff.1 h
    cases fitted with
    | none => cases h
    | some fitted =>
      cases h
      exact ⟨size, hsize, hmin, hfitted⟩

/-- **A buy is covered by the cash**, fees included. -/
theorem fitBuy_covered {cash price : F} {date : ℤ} {qty : Qty} {shares : UInt32} {amount : F}
    {fees : TradeCost F} (h : e.fitBuy cash qty date price = some (.ok (shares, amount, fees))) :
    amount = ofU32 shares * price ∧
      fees = e.rules.tradeCostAt .buy amount (some e.board.market) date ∧
      amount + fees.total ≤ cash + eps := by
  obtain ⟨_, -, -, hfit⟩ := fitBuy_eq_ok h
  exact fitLots_eq_some hfit

/-! ## One round of the loop -/

section Round

variable (e) (S : Strategy F σ) (bars : List (Bar F)) (t : ℕ)

/-- The orders with an execution attempt at a bar, once it is open. -/
def due (w : Walk F σ) : List Order :=
  match e.config.execution with
  | .sameClose => (S.onBar w.strategy (e.ctx bars t w) t).2
  | _ => if 0 < t then w.pending else []

/-- The raw price of the attempts at a bar. -/
def execPrice (bar : Bar F) : F :=
  match e.config.execution with
  | .nextOpen => bar.openPrice
  | _ => bar.close

/-- What the strategy is asked with: under `NextOpen`, after the fills of the bar. -/
def asked (w : Walk F σ) (account : Account F) : StrategyContext F :=
  match e.config.execution with
  | .nextOpen => e.ctx bars t { w with account := account }
  | _ => e.ctx bars t w

/-- The walk after the attempts of a bar, which leave an account, and the answer of the strategy. -/
def traded (w : Walk F σ) (account : Account F) : Walk F σ :=
  let answer := S.onBar w.strategy (e.asked bars t w account) t
  { w with
    account := account
    strategy := answer.1
    pending := if e.config.execution = .sameClose then w.pending else answer.2 }

end Round

variable {S : Strategy F σ} {w w' : Walk F σ} {bar : Bar F}

theorem trade_eq_some : e.trade S bars t bar w = some w' ↔ ∃ account,
    e.executeAll bars t (e.execPrice bar) (e.due S bars t w) w.account = some account ∧
      w' = e.traded S bars t w account := by
  have hnone : ∀ price, e.executeAll bars t price [] w.account = some w.account := fun _ => rfl
  cases hexec : e.config.execution with
  | nextOpen =>
    by_cases ht : 0 < t
    · simp only [trade, due, execPrice, asked, traded, hexec, if_pos ht, Option.bind_eq_bind,
        Option.bind_eq_some_iff, Option.some.injEq, reduceCtorEq, if_false]
      exact exists_congr fun account => and_congr_right fun _ => eq_comm
    · simp only [trade, due, execPrice, asked, traded, hexec, if_neg ht, Option.bind_eq_bind, hnone,
        Option.bind_eq_some_iff, Option.some.injEq, reduceCtorEq, if_false]
      exact exists_congr fun account => and_congr_right fun _ => eq_comm
  | nextClose =>
    by_cases ht : 0 < t
    · simp only [trade, due, execPrice, asked, traded, hexec, if_pos ht, Option.bind_eq_bind,
        Option.bind_eq_some_iff, Option.some.injEq, reduceCtorEq, if_false]
      exact exists_congr fun account => and_congr_right fun _ => eq_comm
    · simp only [trade, due, execPrice, asked, traded, hexec, if_neg ht, Option.bind_eq_bind, hnone,
        Option.bind_eq_some_iff, Option.some.injEq, reduceCtorEq, if_false]
      exact exists_congr fun account => and_congr_right fun _ => eq_comm
  | sameClose =>
    simp only [trade, due, execPrice, asked, traded, hexec, Option.bind_eq_bind,
      Option.bind_eq_some_iff, Option.some.injEq, if_true]
    exact exists_congr fun account => and_congr_right fun _ => eq_comm

/-- **A round in closed form**: the attempts due at the bar, the answer of the strategy, the mark. -/
theorem onBar_eq_some : e.onBar S bars t w = some w' ↔ ∃ bar account, bars[t]? = some bar ∧
    e.executeAll bars t (e.execPrice bar) (e.due S bars t (e.openBar bar w))
      (e.openBar bar w).account = some account ∧
    w' = (e.traded S bars t (e.openBar bar w) account).mark bar := by
  rw [onBar, Option.bind_eq_bind, Option.bind_eq_some_iff]
  refine exists_congr fun bar => ?_
  constructor
  · rintro ⟨hbar, h⟩
    obtain ⟨w₁, htrade, h⟩ := Option.bind_eq_some_iff.1 h
    obtain ⟨account, hall, rfl⟩ := trade_eq_some.1 htrade
    exact ⟨account, hbar, hall, (Option.some.inj h).symm⟩
  · rintro ⟨account, hbar, hall, rfl⟩
    exact ⟨hbar, Option.bind_eq_some_iff.2 ⟨_, trade_eq_some.2 ⟨account, hall, rfl⟩, rfl⟩⟩

/-! ## Runs -/

theorem walk_succ_eq_some {first : Bar F} {s : σ} {n : ℕ} :
    e.walk S bars first s (n + 1) = some w' ↔
      ∃ w, e.walk S bars first s n = some w ∧ e.onBar S bars n w = some w' :=
  Option.bind_eq_some_iff

/-- A walk that gets somewhere gets to each place before. -/
theorem walk_of_le {first : Bar F} {s : σ} {m n : ℕ} (hmn : m ≤ n)
    (h : e.walk S bars first s n = some w') : ∃ w, e.walk S bars first s m = some w := by
  induction n, hmn using Nat.le_induction generalizing w' with
  | base => exact ⟨w', h⟩
  | succ n _ ih =>
    obtain ⟨w, hw, -⟩ := walk_succ_eq_some.1 h
    exact ih hw

theorem run_eq_ok {series : PriceSeries F} {s s' : σ} {r : BacktestResult F}
    (h : e.run S series s = some (.ok (r, s'))) : ∃ first rest w, series.bars = first :: rest ∧
      e.walk S series.bars first s series.bars.length = some w ∧ w.account.result = r ∧
      w.strategy = s' := by
  rw [run] at h
  split at h
  · cases h
  · rename_i first rest hbars
    obtain ⟨w, hw, h⟩ := Option.map_eq_some_iff.1 h
    cases h
    refine ⟨first, rest, w, hbars, ?_, rfl, rfl⟩
    rw [hbars, List.length_cons]
    exact hw

theorem run_of_walk {series : PriceSeries F} {first : Bar F} {rest : List (Bar F)} {s : σ}
    (hbars : series.bars = first :: rest)
    (h : e.walk S series.bars first s series.bars.length = some w) :
    e.run S series s = some (.ok (w.account.result, w.strategy)) := by
  rw [hbars, List.length_cons] at h
  simp only [run, hbars, h, Option.map_some]

end BacktestEngine

@[simp] theorem Walk.reanchor_account (w : Walk F σ) (bar : Bar F) :
    (w.reanchor bar).account = w.account := by
  rw [Walk.reanchor]
  dsimp only
  split <;> rfl

/-- Anchoring the visible bars leaves the rest of the walk alone. -/
theorem Walk.reanchor_frame (w : Walk F σ) (bar : Bar F) : (w.reanchor bar).pending = w.pending ∧
    (w.reanchor bar).lastClose = w.lastClose ∧ (w.reanchor bar).strategy = w.strategy := by
  rw [Walk.reanchor]
  dsimp only
  split <;> exact ⟨rfl, rfl, rfl⟩

/-! ## Dates -/

omit [Float64 F] in
theorem date_lt {bars : List (Bar F)} {u v : ℕ} {a b : Bar F}
    (hsorted : bars.Pairwise fun a b => a.date < b.date) (huv : u < v) (hu : bars[u]? = some a)
    (hv : bars[v]? = some b) : a.date < b.date := by
  obtain ⟨hult, rfl⟩ := List.getElem?_eq_some_iff.1 hu
  obtain ⟨hvlt, rfl⟩ := List.getElem?_eq_some_iff.1 hv
  exact List.pairwise_iff_getElem.1 hsorted u v hult hvlt huv

omit [Float64 F] in
theorem date_le {bars : List (Bar F)} {u v : ℕ} {a b : Bar F}
    (hsorted : bars.Pairwise fun a b => a.date < b.date) (huv : u ≤ v) (hu : bars[u]? = some a)
    (hv : bars[v]? = some b) : a.date ≤ b.date := by
  rcases huv.lt_or_eq with huv | rfl
  · exact (date_lt hsorted huv hu hv).le
  · rw [hu] at hv
    rw [Option.some.inj hv]

omit [Float64 F] in
/-- The last bar of a series is not before any of its bars. -/
theorem exists_last {bars : List (Bar F)} {t : ℕ} {bar : Bar F}
    (hsorted : bars.Pairwise fun a b => a.date < b.date) (hbar : bars[t]? = some bar) :
    ∃ last, bars.getLast? = some last ∧ bar.date ≤ last.date := by
  have hlen := (List.getElem?_eq_some_iff.1 hbar).1
  have hlast : bars.getLast? = some bars[bars.length - 1] := by
    rw [List.getLast?_eq_getElem?]
    exact List.getElem?_eq_getElem (by omega)
  refine ⟨_, hlast, date_le hsorted (v := bars.length - 1) (by omega) hbar ?_⟩
  exact List.getElem?_eq_getElem (by omega)

omit [Float64 F] in
theorem getLast?_take {bars : List (Bar F)} {t : ℕ} {bar : Bar F} (hbar : bars[t]? = some bar) :
    (bars.take (t + 1)).getLast? = some bar := by
  have hlen := (List.getElem?_eq_some_iff.1 hbar).1
  rw [List.getLast?_eq_getElem?, List.length_take, Nat.min_eq_left hlen]
  exact (List.getElem?_take_of_lt (Nat.lt_succ_self t)).trans hbar

/-! ## What a run appends -/

omit [Float64 F] in
/-- The date of a bar between two places. -/
def DatedIn (bars : List (Bar F)) (lo hi : ℕ) (date : ℤ) : Prop :=
  ∃ u bar, lo ≤ u ∧ u < hi ∧ bars[u]? = some bar ∧ bar.date = date

omit [Float64 F] in
/-- Fills and rejections are appended, with dates of a kind. -/
structure BacktestResult.Grows (dated : ℤ → Prop) (r r' : BacktestResult F) : Prop where
  trades : ∃ new, r'.trades = r.trades ++ new ∧ ∀ f ∈ new, dated f.date
  rejections : ∃ new, r'.rejections = r.rejections ++ new ∧ ∀ x ∈ new, dated x.date

namespace BacktestResult.Grows

variable {dated dated' : ℤ → Prop} {r r' r'' : BacktestResult F}

omit [Float64 F]

theorem refl (r : BacktestResult F) : r.Grows dated r where
  trades := ⟨[], (List.append_nil _).symm, fun _ h => absurd h List.not_mem_nil⟩
  rejections := ⟨[], (List.append_nil _).symm, fun _ h => absurd h List.not_mem_nil⟩

theorem imp (h : r.Grows dated r') (himp : ∀ d, dated d → dated' d) : r.Grows dated' r' where
  trades := by
    obtain ⟨new, heq, hnew⟩ := h.trades
    exact ⟨new, heq, fun f hf => himp _ (hnew f hf)⟩
  rejections := by
    obtain ⟨new, heq, hnew⟩ := h.rejections
    exact ⟨new, heq, fun f hf => himp _ (hnew f hf)⟩

theorem trans (h : r.Grows dated r') (h' : r'.Grows dated r'') : r.Grows dated r'' where
  trades := by
    obtain ⟨new, heq, hnew⟩ := h.trades
    obtain ⟨new', heq', hnew'⟩ := h'.trades
    refine ⟨new ++ new', by rw [heq', heq, List.append_assoc], fun f hf => ?_⟩
    rcases List.mem_append.1 hf with hf | hf
    · exact hnew f hf
    · exact hnew' f hf
  rejections := by
    obtain ⟨new, heq, hnew⟩ := h.rejections
    obtain ⟨new', heq', hnew'⟩ := h'.rejections
    refine ⟨new ++ new', by rw [heq', heq, List.append_assoc], fun f hf => ?_⟩
    rcases List.mem_append.1 hf with hf | hf
    · exact hnew f hf
    · exact hnew' f hf

end BacktestResult.Grows

namespace BacktestEngine

variable {e : BacktestEngine F} {S : Strategy F σ} {bars : List (Bar F)} {t : ℕ} {rawPrice : F}
  {a a' : Account F} {order : Order} {w w' : Walk F σ} {bar first : Bar F} {s : σ}

/-- **An attempt appends one entry**, dated on its bar, and leaves the equity curve alone. -/
theorem Attempted.grows (h : e.Attempted bars t rawPrice a order a') (hbar : bars[t]? = some bar) :
    a.result.Grows (· = bar.date) a'.result ∧ a'.result.equity = a.result.equity := by
  have hsame : ∀ {bar' : Bar F}, bars[t]? = some bar' → bar'.date = bar.date := by
    intro bar' hbar'
    rw [hbar] at hbar'
    exact congrArg Bar.date (Option.some.inj hbar').symm
  cases h with
  | rejected reason hbar' =>
    refine ⟨⟨⟨[], (List.append_nil _).symm, fun _ h => absurd h List.not_mem_nil⟩, _, rfl, ?_⟩, rfl⟩
    intro x hx
    obtain rfl := List.mem_singleton.1 hx
    exact hsame hbar'
  | bought hbuy =>
    refine ⟨⟨⟨_, rfl, ?_⟩, [], (List.append_nil _).symm, fun _ h => absurd h List.not_mem_nil⟩, rfl⟩
    intro x hx
    obtain rfl := List.mem_singleton.1 hx
    exact hsame hbuy.at'
  | sold hsell =>
    refine ⟨⟨⟨_, rfl, ?_⟩, [], (List.append_nil _).symm, fun _ h => absurd h List.not_mem_nil⟩, rfl⟩
    intro x hx
    obtain rfl := List.mem_singleton.1 hx
    exact hsame hsell.at'

theorem executeAll_grows (hbar : bars[t]? = some bar) {orders : List Order}
    (h : e.executeAll bars t rawPrice orders a = some a') :
    a.result.Grows (· = bar.date) a'.result ∧ a'.result.equity = a.result.equity := by
  refine Trace.relation (R := fun a a' : Account F =>
    a.result.Grows (· = bar.date) a'.result ∧ a'.result.equity = a.result.equity)
    (fun a => ⟨.refl _, rfl⟩) ?_ ?_ h
  · rintro a₁ a₂ a₃ ⟨h₁, heq₁⟩ ⟨h₂, heq₂⟩
    exact ⟨h₁.trans h₂, heq₂.trans heq₁⟩
  · intro a order a' h
    exact (attempted_of_executeOne h).grows hbar

theorem openBar_account (w : Walk F σ) (bar : Bar F) : (e.openBar bar w).account =
    { w.account with pf.sellable := w.account.pf.shares } := by
  rw [openBar]
  cases e.config.adjustment with
  | raw => rfl
  | qfqAsOf => exact Walk.reanchor_account _ _

@[simp] theorem openBar_result (w : Walk F σ) (bar : Bar F) :
    (e.openBar bar w).account.result = w.account.result := by
  rw [openBar_account]

@[simp] theorem openBar_pending (w : Walk F σ) (bar : Bar F) :
    (e.openBar bar w).pending = w.pending := by
  rw [openBar]
  cases e.config.adjustment with
  | raw => rfl
  | qfqAsOf => exact (Walk.reanchor_frame _ _).1

@[simp] theorem openBar_lastClose (w : Walk F σ) (bar : Bar F) :
    (e.openBar bar w).lastClose = w.lastClose := by
  rw [openBar]
  cases e.config.adjustment with
  | raw => rfl
  | qfqAsOf => exact (Walk.reanchor_frame _ _).2.1

@[simp] theorem openBar_strategy (w : Walk F σ) (bar : Bar F) :
    (e.openBar bar w).strategy = w.strategy := by
  rw [openBar]
  cases e.config.adjustment with
  | raw => rfl
  | qfqAsOf => exact (Walk.reanchor_frame _ _).2.2

/-- **A round appends** to the logs, with the date of its bar, and one point to the equity curve. -/
theorem onBar_grows (h : e.onBar S bars t w = some w') :
    w.account.result.Grows (DatedIn bars t (t + 1)) w'.account.result ∧
      ∃ bar point, bars[t]? = some bar ∧ point.date = bar.date ∧
        w'.account.result.equity = w.account.result.equity ++ [point] := by
  obtain ⟨bar, account, hbar, hall, rfl⟩ := onBar_eq_some.1 h
  obtain ⟨hgrows, hequity⟩ := executeAll_grows hbar hall
  rw [openBar_result] at hgrows hequity
  have hround : w.account.result.Grows (· = bar.date)
      ((e.traded S bars t (e.openBar bar w) account).mark bar).account.result :=
    ⟨hgrows.trades, hgrows.rejections⟩
  refine ⟨hround.imp ?_, bar, _, hbar, rfl, congrArg (· ++ _) hequity⟩
  rintro d rfl
  exact ⟨t, bar, le_rfl, Nat.lt_succ_self t, hbar, rfl⟩

/-- **What a walk appends** from one place to a later one. -/
theorem walk_grows {m n : ℕ} (hmn : m ≤ n) (hw : e.walk S bars first s m = some w)
    (hw' : e.walk S bars first s n = some w') :
    w.account.result.Grows (DatedIn bars m n) w'.account.result ∧
      ∃ points, points.length = n - m ∧
        w'.account.result.equity = w.account.result.equity ++ points := by
  induction n, hmn using Nat.le_induction generalizing w' with
  | base =>
    rw [hw] at hw'
    obtain rfl := Option.some.inj hw'
    exact ⟨.refl _, [], by simp, by simp⟩
  | succ n hmn ih =>
    obtain ⟨w₁, hw₁, hbar⟩ := walk_succ_eq_some.1 hw'
    obtain ⟨hgrows, points, hlen, hpoints⟩ := ih hw₁
    obtain ⟨hround, bar, point, -, -, hpoint⟩ := onBar_grows hbar
    refine ⟨(hgrows.imp ?_).trans (hround.imp ?_), points ++ [point], ?_, ?_⟩
    · rintro d ⟨u, b, hlo, hhi, hb, rfl⟩
      exact ⟨u, b, hlo, by omega, hb, rfl⟩
    · rintro d ⟨u, b, hlo, hhi, hb, rfl⟩
      exact ⟨u, b, by omega, hhi, hb, rfl⟩
    · rw [List.length_append, List.length_singleton]
      omega
    · rw [hpoint, hpoints, List.append_assoc]

end BacktestEngine

/-! ## Folded factors -/

theorem foldFactor_append {folded later : List (ℤ × F)} {factor : ℤ × F}
    (hlast : ∀ p ∈ folded, p.1 < factor.1) :
    foldFactor (folded ++ later) factor = folded ++ foldFactor later factor := by
  rcases List.eq_nil_or_concat later with rfl | ⟨init, last, rfl⟩
  · rw [List.append_nil, foldFactor, foldFactor, List.getLast?_nil]
    rcases List.eq_nil_or_concat folded with rfl | ⟨init, last, rfl⟩
    · rfl
    · have hlt := hlast last (by simp)
      simp only [List.concat_eq_append, List.getLast?_concat]
      rw [if_neg hlt.ne, List.nil_append]
  · simp only [List.concat_eq_append, foldFactor, ← List.append_assoc, List.getLast?_concat]
    split
    · rw [List.dropLast_concat, List.dropLast_concat, List.append_assoc]
    · simp only [List.append_assoc]

/-- Folding does not join factors of different dates. -/
theorem foldl_foldFactor_append {folded : List (ℤ × F)} {factors : List (ℤ × F)}
    (hlast : ∀ p ∈ folded, ∀ q ∈ factors, p.1 < q.1) : ∀ later : List (ℤ × F),
    factors.foldl foldFactor (folded ++ later) = folded ++ factors.foldl foldFactor later := by
  induction factors with
  | nil => intro later; rfl
  | cons factor rest ih =>
    intro later
    rw [List.foldl_cons, List.foldl_cons,
      foldFactor_append fun p hp => hlast p hp factor List.mem_cons_self]
    exact ih (fun p hp q hq => hlast p hp q (List.mem_cons_of_mem _ hq)) _

/-- Folding keeps the dates, in their order. -/
theorem foldFactor_dates (folded : List (ℤ × F)) (factor : ℤ × F) :
    ((foldFactor folded factor).map Prod.fst).Sublist ((folded ++ [factor]).map Prod.fst) := by
  rcases List.eq_nil_or_concat folded with rfl | ⟨init, last, rfl⟩
  · exact .refl _
  · simp only [List.concat_eq_append, foldFactor, List.getLast?_concat]
    split
    · rw [List.dropLast_concat, List.append_assoc, List.map_append, List.map_append]
      exact (List.Sublist.refl _).append (List.Sublist.cons₂ _ (List.nil_sublist _))
    · exact .refl _

theorem foldl_foldFactor_dates (factors : List (ℤ × F)) : ∀ folded : List (ℤ × F),
    ((factors.foldl foldFactor folded).map Prod.fst).Sublist ((folded ++ factors).map Prod.fst) := by
  induction factors with
  | nil => intro folded; rw [List.append_nil]; exact .refl _
  | cons factor rest ih =>
    intro folded
    refine (ih _).trans ?_
    rw [List.map_append, List.append_cons, List.map_append]
    exact (foldFactor_dates folded factor).append (.refl _)

/-- The date of a multiplier is the date of a factor. -/
theorem mem_of_folded {factors : List (ℤ × F)} {p : ℤ × F}
    (h : p ∈ factors.foldl foldFactor []) : ∃ q ∈ factors, q.1 = p.1 :=
  List.mem_map.1 ((foldl_foldFactor_dates factors []).subset (List.mem_map_of_mem h))

/-- Multipliers come in the order of their dates. -/
theorem folded_sorted {factors : List (ℤ × F)} (h : factors.Pairwise fun p q => p.1 ≤ q.1) :
    (factors.foldl foldFactor []).Pairwise fun p q => p.1 ≤ q.1 :=
  List.pairwise_map.1 (List.Pairwise.sublist (foldl_foldFactor_dates factors []) (List.pairwise_map.2 h))

/-! ## The attempts of a run -/

/-- An execution attempt. -/
structure Attempt (F : Type) where
  t : ℕ
  rawPrice : F
  order : Order
  before : Account F

namespace BacktestEngine

variable (e : BacktestEngine F) (S : Strategy F σ)

/-- The attempts at a bar. -/
def attemptsAt (bars : List (Bar F)) (t : ℕ) (bar : Bar F) (w : Walk F σ) : List (Attempt F) :=
  (Trace.visits (e.executeOne bars t (e.execPrice bar)) (e.due S bars t w) w.account).map
    fun v => { t := t, rawPrice := e.execPrice bar, order := v.2, before := v.1 }

/-- The execution attempts of a run, each with the account before it. -/
def attempts (series : PriceSeries F) (s : σ) : List (Attempt F) :=
  match series.bars with
  | [] => []
  | first :: rest =>
    (List.range (rest.length + 1)).flatMap fun t =>
      match e.walk S (first :: rest) first s t, (first :: rest)[t]? with
      | some w, some bar => e.attemptsAt S (first :: rest) t bar (e.openBar bar w)
      | _, _ => []

variable {e} {S} {bars : List (Bar F)} {t : ℕ} {w : Walk F σ} {bar first : Bar F} {s : σ}
  {series : PriceSeries F} {rest : List (Bar F)}

/-- The attempts at a bar that a walk gets to are attempts of the run. -/
theorem mem_attempts (hbars : series.bars = first :: rest)
    (hw : e.walk S series.bars first s t = some w) (hbar : series.bars[t]? = some bar)
    {x : Attempt F} (hx : x ∈ e.attemptsAt S series.bars t bar (e.openBar bar w)) :
    x ∈ e.attempts S series s := by
  have hlt : t < rest.length + 1 := by
    have := (List.getElem?_eq_some_iff.1 hbar).1
    rwa [hbars, List.length_cons] at this
  rw [attempts, hbars]
  rw [hbars] at hw hbar hx
  refine List.mem_flatMap.2 ⟨t, List.mem_range.2 hlt, ?_⟩
  simp only [hw, hbar]
  exact hx

/-! ### Invariants of the account -/

/-- A property of accounts that opening a bar and marking it keep. -/
structure Stable (I : Account F → Prop) : Prop where
  opened : ∀ a : Account F, I a → I { a with pf.sellable := a.pf.shares }
  marked : ∀ (a : Account F) (points : List (EquityPoint F)), I a →
    I { a with result.equity := points }

/-- What the attempts at a bar keep. -/
theorem executeAll_invariant {I : Account F → Prop} {account : Account F}
    (hstep : ∀ x ∈ e.attemptsAt S bars t bar w, I x.before → ∀ a',
      e.Attempted bars x.t x.rawPrice x.before x.order a' → I a')
    (h : e.executeAll bars t (e.execPrice bar) (e.due S bars t w) w.account = some account)
    (hI : I w.account) : I account ∧ ∀ x ∈ e.attemptsAt S bars t bar w, I x.before := by
  have hvisits : ∀ v ∈ Trace.visits (e.executeOne bars t (e.execPrice bar)) (e.due S bars t w) w.account,
      ∀ a', I v.1 → e.executeOne bars t (e.execPrice bar) v.1 v.2 = some a' → I a' := by
    intro v hv a' hI h
    exact hstep _ (List.mem_map_of_mem hv) hI a' (attempted_of_executeOne h)
  obtain ⟨hend, hall⟩ := Trace.invariant h hvisits hI
  refine ⟨hend, fun x hx => ?_⟩
  obtain ⟨v, hv, rfl⟩ := List.mem_map.1 hx
  exact hall v hv

/-- **Invariants of a walk**: what each attempt of the run keeps. -/
theorem walk_invariant {I : Account F → Prop} (hstable : Stable I)
    (hbars : series.bars = first :: rest) (hstart : I (e.start series.bars first s).account)
    (hstep : ∀ x ∈ e.attempts S series s, I x.before → ∀ a',
      e.Attempted series.bars x.t x.rawPrice x.before x.order a' → I a') :
    ∀ {n : ℕ} {w : Walk F σ}, e.walk S series.bars first s n = some w → I w.account := by
  intro n
  induction n with
  | zero =>
    intro w h
    obtain rfl := Option.some.inj h
    exact hstart
  | succ n ih =>
    intro w h
    obtain ⟨w₁, hw₁, hround⟩ := walk_succ_eq_some.1 h
    obtain ⟨bar, account, hbar, hall, rfl⟩ := onBar_eq_some.1 hround
    have hopen : I (e.openBar bar w₁).account := by
      rw [openBar_account]
      exact hstable.opened _ (ih hw₁)
    have haccount := (executeAll_invariant (fun x hx => hstep x (mem_attempts hbars hw₁ hbar hx))
      hall hopen).1
    exact hstable.marked account _ haccount

/-- What holds before each attempt of a run that returns. -/
theorem attempts_invariant {I : Account F → Prop} (hstable : Stable I)
    (hstart : ∀ first, I (e.start series.bars first s).account)
    (hstep : ∀ x ∈ e.attempts S series s, I x.before → ∀ a',
      e.Attempted series.bars x.t x.rawPrice x.before x.order a' → I a')
    {r : BacktestResult F} {s' : σ} (hrun : e.run S series s = some (.ok (r, s'))) :
    ∀ x ∈ e.attempts S series s, I x.before := by
  obtain ⟨first, rest, w, hbars, hw, -, -⟩ := run_eq_ok hrun
  intro x hx
  have hmem := hx
  rw [attempts, hbars] at hmem
  obtain ⟨t, ht, hmem⟩ := List.mem_flatMap.1 hmem
  rw [← hbars] at hmem
  have hlt : t < series.bars.length := by
    rw [hbars, List.length_cons]
    exact List.mem_range.1 ht
  obtain ⟨w₁, hw₁⟩ := walk_of_le (Nat.succ_le_of_lt hlt) hw
  obtain ⟨w₀, hw₀, hround⟩ := walk_succ_eq_some.1 hw₁
  obtain ⟨bar, account, hbar, hall, -⟩ := onBar_eq_some.1 hround
  simp only [hw₀, hbar] at hmem
  have hopen : I (e.openBar bar w₀).account := by
    rw [openBar_account]
    exact hstable.opened _ (walk_invariant hstable hbars (hstart first) hstep hw₀)
  exact (executeAll_invariant (fun y hy => hstep y (mem_attempts hbars hw₀ hbar hy)) hall hopen).2 x hmem

end BacktestEngine

namespace BacktestEngine

variable {e : BacktestEngine F} {S : Strategy F σ} {series : PriceSeries F} {s s' : σ}
  {r : BacktestResult F}

/-- **Each attempt of a run that returns** does something, and what it appends stays in the logs. -/
theorem attempt_returns (hrun : e.run S series s = some (.ok (r, s'))) {x : Attempt F}
    (hx : x ∈ e.attempts S series s) : ∃ a',
      e.executeOne series.bars x.t x.rawPrice x.before x.order = some a' ∧
      ∀ f ∈ a'.result.trades, f ∈ r.trades := by
  obtain ⟨first, rest, w, hbars, hw, rfl, -⟩ := run_eq_ok hrun
  rw [attempts, hbars] at hx
  obtain ⟨t, ht, hx⟩ := List.mem_flatMap.1 hx
  rw [← hbars] at hx
  have hlt : t < series.bars.length := by
    rw [hbars, List.length_cons]
    exact List.mem_range.1 ht
  obtain ⟨w₁, hw₁⟩ := walk_of_le (Nat.succ_le_of_lt hlt) hw
  obtain ⟨w₀, hw₀, hround⟩ := walk_succ_eq_some.1 hw₁
  obtain ⟨bar, account, hbar, hall, rfl⟩ := onBar_eq_some.1 hround
  simp only [hw₀, hbar] at hx
  obtain ⟨v, hv, rfl⟩ := List.mem_map.1 hx
  obtain ⟨a', later, hstep, hlater⟩ := Trace.step_of_visits hall v hv
  refine ⟨a', hstep, fun f hf => ?_⟩
  obtain ⟨new, hnew, -⟩ := (executeAll_grows hbar hlater).1.trades
  obtain ⟨new', hnew', -⟩ := (walk_grows (Nat.succ_le_of_lt hlt) hw₁ hw).1.trades
  rw [hnew']
  refine List.mem_append_left _ ?_
  change f ∈ account.result.trades
  rw [hnew]
  exact List.mem_append_left _ hf

end BacktestEngine

/-! ## A market with one board -/

/-- What a run that returns gives. -/
def returned {ε α : Type} (o : Option (Except ε α)) : Option α := o.bind Except.toOption

theorem returned_eq_some {ε α : Type} {o : Option (Except ε α)} {x : α} :
    returned o = some x ↔ o = some (.ok x) := by
  rcases o with _ | _ | y <;> simp [returned, Except.toOption]

/-- A board of lots of 100 shares, with price limits of 10%. -/
def mainBoard : BoardRule ℚ where
  id := "main"
  name := "main"
  market := "SH"
  prefixes := ["60"]
  priceLimitPct := 1 / 10
  stPriceLimitPct := 1 / 20
  ipoNoLimitDays := 5
  minLot := 100
  lotStep := 100
  tPlus1 := true

theorem mainBoard_resolved :
    RuleSet.forSymbol { boards := [mainBoard], fees := [] } "60" = some (.fromRule mainBoard) := by
  decide +kernel

/-- An engine on this board, without slippage. -/
def mainEngine (fees : List (FeeRule ℚ)) (cash : ℚ) (hcash : ¬cash ≤ 0)
    (execution : ExecutionPolicy) (adjustment : AdjustmentPolicy)
    (corporateActions : List (CorporateAction ℚ)) : BacktestEngine ℚ where
  rules := { boards := [mainBoard], fees := fees }
  board := .fromRule mainBoard
  config := {
    symbol := "60"
    initialCash := cash
    execution := execution
    adjustment := adjustment
    corporateActions := corporateActions
    slippageBps := 0
    isSt := false }
  funded := hcash
  resolved := mainBoard_resolved

/-- A strategy that answers with the orders written down for each bar. -/
def scripted (script : List (List Order)) : Strategy ℚ Unit where
  onBar _ _ t := ((), (script[t]?).getD [])

/-- Three bars at one price. -/
def flatSeries (price : ℚ) : PriceSeries ℚ where
  symbol := "60"
  bars := [.flat 1 price, .flat 2 price, .flat 3 price]
  sorted := by simp [Bar.flat]

end Astock
