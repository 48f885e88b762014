import Astock.Proof.Ledger

/-!
# Trading rules along a run

* `fitBuy_validLot`: rounding and shrinking keep valid lots.
* `executeAll_sold`: what is sold at a bar was sellable when it opened.
* `trading_safety`: **every run keeps the trading rules** in which no buy overflows the share count.
-/

namespace Astock

open Float64

variable {F σ : Type} [Float64 F] {e : BacktestEngine F} {S : Strategy F σ} {series : PriceSeries F}
  {s s' : σ} {bars : List (Bar F)} {t : ℕ} {bar : Bar F}

/-- Rounding is monotone: the tolerance only widens a gate. -/
class TolerantGates (F : Type) [Float64 F] : Prop where
  below : ∀ limit price : F, limit ≤ price → limit - eps ≤ price
  above : ∀ limit price : F, price ≤ limit → price ≤ limit + eps

instance : TolerantGates ℚ where
  below limit price h := by
    rw [eps, lit_exact]
    linarith
  above limit price h := by
    rw [eps, lit_exact]
    linarith

/-! ## Lots -/

/-- A valid lot, on numbers. -/
theorem isValidLot_iff {board : BoardRules F} (hstep : board.lotStep ≠ 0) {shares : UInt32} :
    board.isValidLot shares ↔ board.minLot.toNat ≤ shares.toNat ∧
      (shares.toNat - board.minLot.toNat) % board.lotStep.toNat = 0 := by
  rw [BoardRules.isValidLot, BoardRules.isMultipleOf, if_neg hstep, Bool.and_eq_true,
    decide_eq_true_eq, decide_eq_true_eq, UInt32.le_iff_toNat_le]
  refine and_congr_right fun hle => ?_
  rw [← UInt32.toNat_inj, UInt32.toNat_mod, U32.toNat_sub hle]
  rfl

theorem roundLot_validLot (hstep : e.board.lotStep ≠ 0) {shares size : UInt32}
    (h : e.roundLot shares = some size) (hmin : ¬size < e.board.minLot) :
    e.board.isValidLot size := by
  rw [BacktestEngine.roundLot] at h
  split at h
  · rename_i hlt
    -- nothing is a valid lot below the minimum
    obtain rfl := Option.some.inj h
    rw [isValidLot_iff hstep]
    rw [UInt32.lt_iff_toNat_lt, not_lt] at hmin
    refine ⟨hmin, ?_⟩
    have h₀ : (0 : UInt32).toNat = 0 := rfl
    rw [h₀, Nat.zero_sub, Nat.zero_mod]
  · rename_i hge
    obtain rfl := Option.some.inj h
    rw [UInt32.lt_iff_toNat_lt, not_lt] at hge
    set q := (shares - e.board.minLot) / e.board.lotStep * e.board.lotStep with hq
    have hquot : q.toNat =
        (shares.toNat - e.board.minLot.toNat) / e.board.lotStep.toNat * e.board.lotStep.toNat := by
      have hle := Nat.div_mul_le_self (shares.toNat - e.board.minLot.toNat) e.board.lotStep.toNat
      have hlt := shares.toNat_lt
      rw [hq, UInt32.toNat_mul, UInt32.toNat_div, U32.toNat_sub hge, Nat.mod_eq_of_lt (by omega)]
    have hadd : (e.board.minLot + q).toNat = e.board.minLot.toNat + q.toNat := by
      refine U32.toNat_add ?_
      have hle := Nat.div_mul_le_self (shares.toNat - e.board.minLot.toNat) e.board.lotStep.toNat
      have hlt := shares.toNat_lt
      omega
    rw [isValidLot_iff hstep, hadd]
    refine ⟨Nat.le_add_right _ _, ?_⟩
    rw [Nat.add_sub_cancel_left, hquot, Nat.mul_mod_left]

/-- Shrinking by a lot step keeps a lot valid. -/
theorem fitLots_validLot (hstep : e.board.lotStep ≠ 0)
    (hsum : e.board.minLot.toNat + e.board.lotStep.toNat < 2 ^ 32) {cash price amount : F} {date : ℤ}
    {fees : TradeCost F} {shares : UInt32} : ∀ {rounds : ℕ} {size : UInt32},
    e.fitLots cash date price rounds size = some (some (shares, amount, fees)) →
    e.board.isValidLot size → e.board.isValidLot shares := by
  intro rounds
  induction rounds with
  | zero => intro size h; cases h
  | succ rounds ih =>
    intro size h hsize
    rw [BacktestEngine.fitLots] at h
    split at h
    · cases h
      exact hsize
    · split at h
      · cases h
      · rename_i hge
        refine ih h ?_
        rw [UInt32.lt_iff_toNat_lt, not_lt, U32.toNat_add hsum] at hge
        rw [isValidLot_iff hstep] at hsize ⊢
        rw [U32.toNat_sub (by omega)]
        refine ⟨by omega, ?_⟩
        have hsplit : size.toNat - e.board.minLot.toNat =
            size.toNat - e.board.lotStep.toNat - e.board.minLot.toNat + e.board.lotStep.toNat := by
          omega
        rw [hsplit, Nat.add_mod_right] at hsize
        exact hsize.2

/-- **A buy gets a valid lot.** -/
theorem fitBuy_validLot (hstep : e.board.lotStep ≠ 0)
    (hsum : e.board.minLot.toNat + e.board.lotStep.toNat < 2 ^ 32) {cash price amount : F} {date : ℤ}
    {qty : Qty} {fees : TradeCost F} {shares : UInt32}
    (h : e.fitBuy cash qty date price = some (.ok (shares, amount, fees))) :
    e.board.isValidLot shares := by
  obtain ⟨size, hsize, hmin, hfit⟩ := BacktestEngine.fitBuy_eq_ok h
  refine fitLots_validLot hstep hsum hfit ?_
  cases qty with
  | shares q =>
    rw [BacktestEngine.buySize] at hsize
    split at hsize
    · cases hsize
    · obtain ⟨size', hround, heq⟩ := Option.map_eq_some_iff.1 hsize
      cases heq
      exact roundLot_validLot hstep hround hmin
  | max =>
    obtain ⟨size', hround, heq⟩ := Option.map_eq_some_iff.1 hsize
    cases heq
    exact roundLot_validLot hstep hround hmin

/-! ## Selling -/

namespace BacktestEngine

variable {rawPrice : F} {a a' : Account F} {order : Order}

/-- **T+1 of one attempt**: what it sells is taken from what may be sold. -/
theorem Attempted.sold_sellable (h : e.Attempted bars t rawPrice a order a') : ∃ new,
    a'.result.trades = a.result.trades ++ new ∧
      a'.pf.sellable.toNat + sharesOf .sell new = a.pf.sellable.toNat := by
  cases h with
  | rejected reason hbar => exact ⟨[], (List.append_nil _).symm, rfl⟩
  | bought hbuy =>
    refine ⟨_, rfl, ?_⟩
    rw [sharesOf_singleton, if_neg TradeSide.noConfusion]
    rfl
  | @sold bar shares hsell =>
    refine ⟨_, rfl, ?_⟩
    have hle : shares.toNat ≤ a.pf.sellable.toNat := by
      rw [hsell.size]
      exact sellSize_le _ _
    have hsub : (a.pf.sellable - shares).toNat = a.pf.sellable.toNat - shares.toNat :=
      U32.toNat_sub hle
    rw [sharesOf_singleton, if_pos rfl]
    change (a.pf.sellable - shares).toNat + shares.toNat = a.pf.sellable.toNat
    omega

/-- **T+1 of a bar**: its orders sell no more than was sellable when it opened. -/
theorem executeAll_sold {orders : List Order} (h : e.executeAll bars t rawPrice orders a = some a') :
    ∃ new, a'.result.trades = a.result.trades ++ new ∧
      a'.pf.sellable.toNat + sharesOf .sell new = a.pf.sellable.toNat := by
  refine Trace.relation (R := fun a a' : Account F => ∃ new,
    a'.result.trades = a.result.trades ++ new ∧
      a'.pf.sellable.toNat + sharesOf .sell new = a.pf.sellable.toNat) ?_ ?_ ?_ h
  · exact fun a => ⟨[], (List.append_nil _).symm, rfl⟩
  · rintro a₁ a₂ a₃ ⟨new, heq, hsold⟩ ⟨new', heq', hsold'⟩
    refine ⟨new ++ new', by rw [heq', heq, List.append_assoc], ?_⟩
    rw [sharesOf_append]
    omega
  · exact fun a order a' h => (attempted_of_executeOne h).sold_sellable

end BacktestEngine

/-- The shares held when a bar opens, by the equity curve. -/
def heldBefore (equity : List (EquityPoint F)) : ℕ → ℕ
  | 0 => 0
  | t + 1 => ((equity[t]?).map (·.shares.toNat)).getD 0

/-- Each round of a walk records what is held after it. -/
theorem walk_heldBefore {first : Bar F} {n : ℕ} : ∀ {w : Walk F σ},
    e.walk S bars first s n = some w → w.account.result.equity.length = n ∧
      heldBefore w.account.result.equity n = w.account.pf.shares.toNat := by
  cases n with
  | zero =>
    intro w h
    obtain rfl := Option.some.inj h
    exact ⟨rfl, rfl⟩
  | succ n =>
    intro w h
    obtain ⟨-, points, hlen, hpoints⟩ := BacktestEngine.walk_grows (Nat.zero_le (n + 1)) rfl h
    obtain ⟨w₁, hw₁, hround⟩ := BacktestEngine.walk_succ_eq_some.1 h
    obtain ⟨-, before, hbefore, hequity₁⟩ := BacktestEngine.walk_grows (Nat.zero_le n) rfl hw₁
    obtain ⟨bar, account, hbar, hall, rfl⟩ := BacktestEngine.onBar_eq_some.1 hround
    have hequity := (BacktestEngine.executeAll_grows hbar hall).2
    rw [BacktestEngine.openBar_result] at hequity
    have hstart : (e.start bars first s).account.result.equity = [] := rfl
    rw [hstart, List.nil_append] at hequity₁
    have hn : account.result.equity.length = n := by
      rw [hequity, hequity₁, hbefore, Nat.sub_zero]
    constructor
    · change (account.result.equity ++ [_]).length = n + 1
      rw [List.length_append, hn, List.length_singleton]
    · change (((account.result.equity ++ [_])[n]?).map _).getD 0 = account.pf.shares.toNat
      rw [List.getElem?_append_right hn.le, hn, Nat.sub_self]
      rfl

/-! ## The rules of a bar -/

/-- A fill that the rules of a bar allow. -/
structure Fill.Lawful (e : BacktestEngine F) (bars : List (Bar F)) (t : ℕ) (bar : Bar F)
    (fill : Fill F) : Prop where
  trading : bar.suspended = false
  lot : fill.side = .buy → e.board.isValidLot fill.shares
  below : fill.side = .buy → ∀ close, preClose bars t = some close →
    ¬e.board.limitUpPrice close e.config.isSt ≤ e.execPrice bar
  above : fill.side = .sell → ∀ close, preClose bars t = some close →
    ¬e.execPrice bar ≤ e.board.limitDownPrice close e.config.isSt

/-- All fills of an account are dated on a bar whose rules allow them. -/
def Account.Lawful (e : BacktestEngine F) (bars : List (Bar F)) (a : Account F) : Prop :=
  ∀ fill ∈ a.result.trades, ∃ t bar, bars[t]? = some bar ∧ fill.date = bar.date ∧
    fill.Lawful e bars t bar

theorem Account.Lawful.stable : BacktestEngine.Stable (Account.Lawful e bars) where
  opened _ h := h
  marked _ _ h := h

theorem Account.Lawful.book {a : Account F} (h : a.Lawful e bars) (pf : Portfolio F) {fill : Fill F}
    (hbar : bars[t]? = some bar) (hdate : fill.date = bar.date) (hfill : fill.Lawful e bars t bar) :
    (a.book pf fill).Lawful e bars := by
  intro f hf
  rcases List.mem_append.1 hf with hf | hf
  · exact h f hf
  · obtain rfl := List.mem_singleton.1 hf
    exact ⟨t, bar, hbar, hdate, hfill⟩

/-- The attempts of a run trade at the raw price of their bar. -/
theorem attempt_execPrice {x : Attempt F} (hx : x ∈ e.attempts S series s) :
    ∃ bar, series.bars[x.t]? = some bar ∧ x.rawPrice = e.execPrice bar := by
  rw [BacktestEngine.attempts] at hx
  split at hx
  · exact absurd hx List.not_mem_nil
  rename_i first rest hbars
  obtain ⟨t, -, hx⟩ := List.mem_flatMap.1 hx
  split at hx
  · rename_i w bar hw hbar
    obtain ⟨v, -, rfl⟩ := List.mem_map.1 hx
    refine ⟨bar, ?_, rfl⟩
    rw [hbars]
    exact hbar
  · exact absurd hx List.not_mem_nil

/-- **An attempt fills by the rules of its bar.** -/
theorem BacktestEngine.Attempted.lawful [TolerantGates F] (hstep : e.board.lotStep ≠ 0)
    (hsum : e.board.minLot.toNat + e.board.lotStep.toNat < 2 ^ 32) {rawPrice : F} {a a' : Account F}
    {order : Order} (h : e.Attempted bars t rawPrice a order a')
    (hprice : ∀ bar, bars[t]? = some bar → rawPrice = e.execPrice bar) (ha : a.Lawful e bars) :
    a'.Lawful e bars := by
  cases h with
  | rejected reason hbar => exact ha
  | @bought bar shares amount fees hbuy =>
    refine ha.book _ hbuy.at' rfl ⟨hbuy.trading, fun _ => ?_, fun _ close hclose hle => ?_, ?_⟩
    · exact fitBuy_validLot hstep hsum hbuy.fit
    · rw [← hprice bar hbuy.at'] at hle
      exact hbuy.gate close hclose (TolerantGates.below _ _ hle)
    · exact fun hside => absurd hside TradeSide.noConfusion
  | @sold bar shares hsell =>
    refine ha.book _ hsell.at' rfl ⟨hsell.trading, ?_, ?_, fun _ close hclose hle => ?_⟩
    · exact fun hside => absurd hside TradeSide.noConfusion
    · exact fun hside => absurd hside TradeSide.noConfusion
    · rw [← hprice bar hsell.at'] at hle
      exact hsell.gate close hclose (TolerantGates.above _ _ hle)

/-! ## The claim on runs -/

/-- **The trading rules along a run**: nothing is sold that is not held, nothing is sold on the day it
was bought, and each fill keeps the rules of the bar it is dated on. -/
structure RunSafe (e : BacktestEngine F) (S : Strategy F σ) (series : PriceSeries F) (s : σ)
    (r : BacktestResult F) : Prop where
  sellable : ∀ x ∈ e.attempts S series s, ∀ a',
    e.executeOne series.bars x.t x.rawPrice x.before x.order = some a' →
      x.before.pf.sellable ≤ x.before.pf.shares ∧ a'.pf.sellable ≤ a'.pf.shares
  settled : ∀ t bar, series.bars[t]? = some bar →
    sharesOf .sell (r.trades.filter (·.date = bar.date)) ≤ heldBefore r.equity t
  lawful : ∀ fill ∈ r.trades, ∃ t bar, series.bars[t]? = some bar ∧ fill.date = bar.date ∧
    fill.Lawful e series.bars t bar

/-- The fills of a bar are those of its round. -/
theorem fills_at (hbar : bars[t]? = some bar) (hsorted : bars.Pairwise fun a b => a.date < b.date)
    {before new later : List (Fill F)} (hbefore : ∀ f ∈ before, DatedIn bars 0 t f.date)
    (hnew : ∀ f ∈ new, f.date = bar.date)
    (hlater : ∀ f ∈ later, DatedIn bars (t + 1) bars.length f.date) :
    (before ++ new ++ later).filter (·.date = bar.date) = new := by
  have hearly : before.filter (·.date = bar.date) = [] := by
    refine List.filter_eq_nil_iff.2 fun f hf => ?_
    obtain ⟨u, b, -, hu, hb, hdate⟩ := hbefore f hf
    have := date_lt hsorted hu hb hbar
    simp only [decide_eq_true_eq]
    omega
  have hlate : later.filter (·.date = bar.date) = [] := by
    refine List.filter_eq_nil_iff.2 fun f hf => ?_
    obtain ⟨u, b, hu, -, hb, hdate⟩ := hlater f hf
    have := date_lt hsorted (Nat.lt_of_succ_le hu) hbar hb
    simp only [decide_eq_true_eq]
    omega
  have hall : new.filter (·.date = bar.date) = new := by
    refine List.filter_eq_self.2 fun f hf => ?_
    rw [hnew f hf, decide_eq_true_eq]
  rw [List.filter_append, List.filter_append, hearly, hall, hlate, List.append_nil, List.nil_append]

/-- **T+1 of a run.** -/
theorem run_settled {r : BacktestResult F} (hrun : e.run S series s = some (.ok (r, s')))
    (hbar : series.bars[t]? = some bar) :
    sharesOf .sell (r.trades.filter (·.date = bar.date)) ≤ heldBefore r.equity t := by
  obtain ⟨first, rest, w, hbars, hw, rfl, -⟩ := BacktestEngine.run_eq_ok hrun
  have hlt := (List.getElem?_eq_some_iff.1 hbar).1
  obtain ⟨w₁, hw₁⟩ := BacktestEngine.walk_of_le (Nat.succ_le_of_lt hlt) hw
  obtain ⟨w₀, hw₀, hround⟩ := BacktestEngine.walk_succ_eq_some.1 hw₁
  obtain ⟨hpoints₀, hheld⟩ := walk_heldBefore hw₀
  obtain ⟨hgrows₀, -⟩ := BacktestEngine.walk_grows (Nat.zero_le t) rfl hw₀
  obtain ⟨hgrows, points, -, hpoints⟩ := BacktestEngine.walk_grows hlt.le hw₀ hw
  obtain ⟨hgrows₁, -⟩ := BacktestEngine.walk_grows (Nat.succ_le_of_lt hlt) hw₁ hw
  obtain ⟨before, hbefore, hdated⟩ := hgrows₀.trades
  obtain ⟨later, hlater, hdated'⟩ := hgrows₁.trades
  obtain ⟨bar', account, hbar', hall, rfl⟩ := BacktestEngine.onBar_eq_some.1 hround
  rw [hbar] at hbar'
  obtain rfl := Option.some.inj hbar'
  obtain ⟨new, hnew, hsold⟩ := BacktestEngine.executeAll_sold hall
  obtain ⟨new', hnew', hdate⟩ := (BacktestEngine.executeAll_grows hbar hall).1.trades
  obtain rfl : new' = new := List.append_cancel_left (hnew'.symm.trans hnew)
  have htrades : w.account.result.trades = before ++ new' ++ later := by
    rw [hlater]
    change account.result.trades ++ later = _
    rw [hnew, BacktestEngine.openBar_result, hbefore]
    rfl
  have hequity : heldBefore w.account.result.equity t = w₀.account.pf.shares.toNat := by
    rw [← hheld, hpoints]
    cases t with
    | zero => rfl
    | succ t =>
      rw [heldBefore, heldBefore, List.getElem?_append_left (by omega)]
  rw [htrades, fills_at hbar series.sorted hdated hdate hdated', hequity]
  rw [BacktestEngine.openBar_account] at hsold
  change account.pf.sellable.toNat + sharesOf .sell new' = w₀.account.pf.shares.toNat at hsold
  omega

/-- **Trading-rule safety** of the runs in which no buy overflows the share count. -/
theorem trading_safety [TolerantGates F] (e : BacktestEngine F) (S : Strategy F σ)
    (series : PriceSeries F) (s : σ) {s' : σ} {r : BacktestResult F}
    (hstep : 1 ≤ e.board.lotStep) (hsum : e.board.minLot.toNat + e.board.lotStep.toNat < 2 ^ 32)
    (hrun : e.run S series s = some (.ok (r, s')))
    (hfits : ∀ x ∈ e.attempts S series s, x.NoOverflow e series.bars) : RunSafe e S series s r := by
  have hne : e.board.lotStep ≠ 0 := by
    intro h₀
    rw [h₀] at hstep
    exact absurd hstep (by decide)
  have hkeeps : ∀ x ∈ e.attempts S series s, Holds x.before → ∀ a',
      e.Attempted series.bars x.t x.rawPrice x.before x.order a' → Holds a' :=
    fun x hx hbefore a' h => h.holds (hfits x hx) hbefore
  constructor
  · intro x hx a' hone
    have hbefore := BacktestEngine.attempts_invariant Holds.stable (fun _ => ⟨rfl, le_rfl⟩) hkeeps
      hrun x hx
    have hafter := hkeeps x hx hbefore a' (BacktestEngine.attempted_of_executeOne hone)
    exact ⟨UInt32.le_iff_toNat_le.2 hbefore.sellable, UInt32.le_iff_toNat_le.2 hafter.sellable⟩
  · intro t bar hbar
    exact run_settled hrun hbar
  · obtain ⟨first, rest, w, hbars, hw, rfl, -⟩ := BacktestEngine.run_eq_ok hrun
    refine BacktestEngine.walk_invariant Account.Lawful.stable hbars ?_ ?_ hw
    · exact fun fill hfill => by cases hfill
    · intro x hx hbefore a' h
      obtain ⟨bar, hbar, hprice⟩ := attempt_execPrice hx
      refine h.lawful hne hsum (fun bar' hbar' => ?_) hbefore
      rw [hbar] at hbar'
      rw [hprice, Option.some.inj hbar']

/-- A buy of 200 shares, and two sells the day after. -/
theorem trading_safety_two_sells : ∃ r, RunSafe (mainEngine [] 1000 (by norm_num) .nextOpen .raw [])
    (scripted [[.buy (.shares 200)], [.sell (.shares 100), .sell .max]]) (flatSeries 1) () r := by
  have hrun : (returned ((mainEngine [] 1000 (by norm_num) .nextOpen .raw []).run
      (scripted [[.buy (.shares 200)], [.sell (.shares 100), .sell .max]]) (flatSeries 1) ())).isSome := by
    decide +kernel
  have hfits : ((mainEngine [] 1000 (by norm_num) .nextOpen .raw []).attempts
      (scripted [[.buy (.shares 200)], [.sell (.shares 100), .sell .max]]) (flatSeries 1) ()).all
        (·.fits (mainEngine [] 1000 (by norm_num) .nextOpen .raw []) (flatSeries 1).bars) := by
    decide +kernel
  obtain ⟨⟨r, s'⟩, hr⟩ := Option.isSome_iff_exists.1 hrun
  exact ⟨r, trading_safety _ _ _ _ (by decide) (by decide) (returned_eq_some.1 hr)
    fun x hx => Attempt.noOverflow_of_fits (List.all_eq_true.1 hfits x hx)⟩

/-- Two buys, on two days, of all that 10^11 of cash affords at a price of 1 wrap the share count
below what may be sold. -/
theorem overflow_unsafe : ¬∀ (e : BacktestEngine ℚ) (S : Strategy ℚ Unit) (series : PriceSeries ℚ)
    (s' : Unit) (r : BacktestResult ℚ), 1 ≤ e.board.lotStep → 1 ≤ e.board.minLot →
    e.run S series () = some (.ok (r, s')) → RunSafe e S series () r := by
  intro h
  have hrun : (returned ((mainEngine [] (10 ^ 11) (by norm_num) .nextOpen .raw []).run
      (scripted [[.buy .max], [.buy .max]]) (flatSeries 1) ())).isSome := by
    decide +kernel
  have hwrap : ((mainEngine [] (10 ^ 11) (by norm_num) .nextOpen .raw []).attempts
      (scripted [[.buy .max], [.buy .max]]) (flatSeries 1) ()).any (fun x =>
        ((mainEngine [] (10 ^ 11) (by norm_num) .nextOpen .raw []).executeOne (flatSeries 1).bars x.t
          x.rawPrice x.before x.order).any fun a' => ¬a'.pf.sellable ≤ a'.pf.shares) = true := by
    decide +kernel
  obtain ⟨⟨r, s'⟩, hr⟩ := Option.isSome_iff_exists.1 hrun
  obtain ⟨x, hx, hany⟩ := List.any_eq_true.1 hwrap
  obtain ⟨a', hone, hlt⟩ := (Option.any_eq_true _ _).1 hany
  have hsafe := h _ _ _ s' r (by decide) (by decide) (returned_eq_some.1 hr)
  exact of_decide_eq_true hlt (hsafe.sellable x hx a' hone).2

end Astock
