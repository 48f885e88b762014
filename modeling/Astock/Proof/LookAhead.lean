import Mathlib
import Astock.Proof.AdjustedBars
import Astock.Proof.BacktestSteps

/-!
# No look-ahead

A run over the first bars of a series is the beginning of the run over all of them, whatever the
arithmetic rounds to.

* `multipliers_take`: the multipliers of the first bars are the first multipliers; the others are
  dated later.
* `onBar_later`: a round at one of the first bars does the same with the later multipliers there.
* `no_lookahead`: **the history up to a bar depends on the bars up to it alone.**
-/

namespace Astock

open Float64 Sorted

variable {F σ : Type} [Float64 F]

/-! ## Multipliers -/

variable {e : BacktestEngine F} {S : Strategy F σ} {bars : List (Bar F)} {t u : ℕ} {bar : Bar F}
  {late : List (ℤ × F)} {warnings : List (AdjustWarning F)}

/-- **The multipliers of the first bars** are the first multipliers; the others are later. -/
theorem multipliers_take (hsorted : bars.Pairwise fun a b => a.date < b.date)
    (hbar : bars[t]? = some bar) : ∃ late,
    (e.multipliers bars).1 = (e.multipliers (bars.take (t + 1))).1 ++ late ∧
      ∀ p ∈ late, bar.date < p.1 := by
  cases hpolicy : e.config.adjustment with
  | raw =>
    refine ⟨[], ?_, fun p hp => absurd hp List.not_mem_nil⟩
    simp only [BacktestEngine.multipliers, hpolicy, List.append_nil]
  | qfqAsOf =>
    obtain ⟨last, hlast, hle⟩ := exists_last hsorted hbar
    have htake := getLast?_take hbar
    have hcore : (bars.map Bar.toCore)[t]? = some bar.toCore := by rw [List.getElem?_map, hbar]; rfl
    have hfirst := actionFactors_take e.config.corporateActions none hcore hle
    have hsplit := split_at_date (actionFactors_sorted (bars.map Bar.toCore)
      e.config.corporateActions last.date none) bar.date
    have hpre : (bars.take (t + 1)).map Bar.toCore = (bars.map Bar.toCore).take (t + 1) :=
      List.map_take
    set factors := (actionFactors (bars.map Bar.toCore) e.config.corporateActions last.date none).1
      with hfactors
    refine ⟨(factors.filter fun p => bar.date < p.1).foldl foldFactor [], ?_, ?_⟩
    · simp only [BacktestEngine.multipliers, hpolicy, hlast, htake, hpre]
      have hdates : ∀ p ∈ (factors.filter (·.1 ≤ bar.date)).foldl foldFactor [],
          ∀ q ∈ factors.filter fun p => bar.date < p.1, p.1 < q.1 := by
        intro p hp q hq
        obtain ⟨p', hp', heq⟩ := mem_of_folded hp
        rw [List.mem_filter, decide_eq_true_eq] at hp'
        rw [List.mem_filter, decide_eq_true_eq] at hq
        omega
      calc factors.foldl foldFactor []
          = (factors.filter fun p => bar.date < p.1).foldl foldFactor
              ((factors.filter (·.1 ≤ bar.date)).foldl foldFactor []) := by
            conv_lhs => rw [hsplit]
            exact List.foldl_append
        _ = (factors.filter (·.1 ≤ bar.date)).foldl foldFactor [] ++
              (factors.filter fun p => bar.date < p.1).foldl foldFactor [] := by
            have h := foldl_foldFactor_append hdates []
            rwa [List.append_nil] at h
        _ = _ := by
            rw [show factors.filter (·.1 ≤ bar.date) = _ from hfirst]
            rfl
    · intro p hp
      obtain ⟨q, hq, heq⟩ := mem_of_folded hp
      rw [List.mem_filter, decide_eq_true_eq] at hq
      omega

/-! ## Rounds -/

omit [Float64 F] in
def Account.warned (a : Account F) (warnings : List (AdjustWarning F)) : Account F :=
  { a with result.adjustmentWarnings := warnings }

omit [Float64 F] in
/-- The walk with more multipliers to come and other warnings. -/
def Walk.later (w : Walk F σ) (late : List (ℤ × F)) (warnings : List (AdjustWarning F)) :
    Walk F σ :=
  { w with account := w.account.warned warnings, multipliers := w.multipliers ++ late }

omit [Float64 F] in
theorem preClose_take (hu : u ≤ t) : preClose (bars.take (t + 1)) u = preClose bars u := by
  cases u with
  | zero => rw [preClose, preClose, List.getElem?_take_of_lt (by omega)]
  | succ u => rw [preClose, preClose, List.getElem?_take_of_lt (by omega)]

namespace BacktestEngine

theorem executeSell_warned (order : Order) (a : Account F) (bar : Bar F) (price : F) :
    e.executeSell order (a.warned warnings) bar price =
      (e.executeSell order a bar price).warned warnings := by
  rw [executeSell, executeSell]
  change (if a.pf.shares = 0 then _ else if a.pf.sellable = 0 then _ else _) = _
  split
  · rfl
  split
  · rfl
  change (if sellSize a.pf.sellable order.qty = 0 then _ else _) = Account.warned (if _ then _ else _) _
  split <;> rfl

theorem executeBuy_warned (order : Order) (a : Account F) (bar : Bar F) (price : F) :
    e.executeBuy order (a.warned warnings) bar price =
      (e.executeBuy order a bar price).map (·.warned warnings) := by
  rw [executeBuy, executeBuy, Option.map_map]
  refine Option.map_congr fun fit _ => ?_
  cases fit <;> rfl

/-- An attempt at one of the first bars reads these bars alone. -/
theorem executeOne_take (hu : u ≤ t) (rawPrice : F) (a : Account F) (order : Order) :
    e.executeOne bars u rawPrice (a.warned warnings) order =
      (e.executeOne (bars.take (t + 1)) u rawPrice a order).map (·.warned warnings) := by
  rw [executeOne, executeOne, preClose_take hu, List.getElem?_take_of_lt (by omega)]
  cases bars[u]? with
  | none => rfl
  | some bar =>
    simp only [Option.bind_eq_bind, Option.bind_some]
    split
    · rfl
    cases preClose bars u with
    | none => rfl
    | some close =>
      simp only [Option.bind_some]
      cases order.side with
      | buy =>
        dsimp only
        split
        · rfl
        · exact executeBuy_warned order a bar _
      | sell =>
        dsimp only
        split
        · rfl
        · rw [executeSell_warned, Option.map_some]

theorem executeAll_take (hu : u ≤ t) (rawPrice : F) (orders : List Order) (a : Account F) :
    e.executeAll bars u rawPrice orders (a.warned warnings) =
      (e.executeAll (bars.take (t + 1)) u rawPrice orders a).map (·.warned warnings) :=
  Trace.foldlM_map (executeOne_take hu rawPrice) orders a

/-- The multipliers that come later do not fall due. -/
theorem takeDue_append (hlate : ∀ p ∈ late, bar.date < p.1) (pending : F) :
    ∀ mults : List (ℤ × F), takeDue bar.date pending (mults ++ late) =
      ((takeDue bar.date pending mults).1, (takeDue bar.date pending mults).2 ++ late) := by
  intro mults
  induction mults generalizing pending with
  | nil =>
    cases late with
    | nil => rfl
    | cons p late =>
      simp only [List.nil_append, takeDue]
      rw [if_neg (not_le.2 (hlate p List.mem_cons_self))]
  | cons p mults ih =>
    rw [List.cons_append, takeDue, takeDue]
    split
    · exact ih _
    · rfl

theorem openBar_later (hlate : ∀ p ∈ late, bar.date < p.1) (w : Walk F σ) :
    e.openBar bar (w.later late warnings) = (e.openBar bar w).later late warnings := by
  rw [openBar, openBar]
  cases e.config.adjustment with
  | raw => rfl
  | qfqAsOf =>
    dsimp only
    rw [Walk.reanchor, Walk.reanchor]
    simp only [Walk.later, takeDue_append hlate]
    split <;> rfl

theorem ctx_take (hu : u ≤ t) (w : Walk F σ) :
    e.ctx bars u (w.later late warnings) = e.ctx (bars.take (t + 1)) u w := by
  rw [ctx, ctx, barsForCtx, barsForCtx, List.take_take, Nat.min_eq_left (by omega)]
  rfl

theorem due_later (hu : u ≤ t) (w : Walk F σ) :
    e.due S bars u (w.later late warnings) = e.due S (bars.take (t + 1)) u w := by
  rw [due, due, ctx_take hu]
  rfl

theorem traded_later (hu : u ≤ t) (w : Walk F σ) (account : Account F) :
    e.traded S bars u (w.later late warnings) (account.warned warnings) =
      (e.traded S (bars.take (t + 1)) u w account).later late warnings := by
  have hasked : e.asked bars u (w.later late warnings) (account.warned warnings) =
      e.asked (bars.take (t + 1)) u w account := by
    rw [asked, asked, ctx_take hu]
    cases e.config.execution with
    | nextOpen => exact ctx_take hu { w with account := account }
    | nextClose => rfl
    | sameClose => rfl
  rw [traded, traded, hasked]
  rfl

/-- **A round at one of the first bars** does the same when there are bars after them. -/
theorem onBar_later (hu : u ≤ t) (w : Walk F σ) {w' : Walk F σ}
    (hlate : ∀ bar, bars[u]? = some bar → ∀ p ∈ late, bar.date < p.1)
    (h : e.onBar S bars u (w.later late warnings) = some w') : ∃ w₁,
    e.onBar S (bars.take (t + 1)) u w = some w₁ ∧ w' = w₁.later late warnings := by
  obtain ⟨bar, account, hbar, hall, rfl⟩ := onBar_eq_some.1 h
  rw [openBar_later (hlate bar hbar), due_later hu] at hall
  obtain ⟨account₁, hall₁, rfl⟩ := Option.map_eq_some_iff.1 ((executeAll_take hu _ _ _).symm.trans hall)
  rw [openBar_later (hlate bar hbar), traded_later hu]
  refine ⟨_, onBar_eq_some.2 ⟨bar, account₁, ?_, hall₁, rfl⟩, rfl⟩
  rw [List.getElem?_take_of_lt (by omega), hbar]

/-- **A walk over the first bars** is the same when there are bars after them. -/
theorem walk_take {first : Bar F} {s : σ} (hsorted : bars.Pairwise fun a b => a.date < b.date)
    (hbar : bars[t]? = some bar) : ∃ late warnings, ∀ n ≤ t + 1, ∀ w',
    e.walk S bars first s n = some w' →
      ∃ w, e.walk S (bars.take (t + 1)) first s n = some w ∧ w' = w.later late warnings := by
  obtain ⟨late, hmults, hlate⟩ := multipliers_take (e := e) hsorted hbar
  refine ⟨late, (e.multipliers bars).2, fun n => ?_⟩
  induction n with
  | zero =>
    intro _ w' h
    obtain rfl := Option.some.inj h
    refine ⟨_, rfl, ?_⟩
    rw [start, hmults]
    rfl
  | succ n ih =>
    intro hn w' h
    obtain ⟨w₁, hw₁, hround⟩ := walk_succ_eq_some.1 h
    obtain ⟨w, hw, rfl⟩ := ih (by omega) w₁ hw₁
    have hdue : ∀ b, bars[n]? = some b → ∀ p ∈ late, b.date < p.1 := by
      intro b hb p hp
      have hle := date_le hsorted (by omega : n ≤ t) hb hbar
      have hlt := hlate p hp
      omega
    obtain ⟨w₂, hw₂, heq⟩ := onBar_later (by omega : n ≤ t) w hdue hround
    exact ⟨w₂, walk_succ_eq_some.2 ⟨w, hw, hw₂⟩, heq⟩

end BacktestEngine

/-! ## The history up to a bar -/

omit [Float64 F] in
/-- The first part of a log: what is dated on the first bars. -/
theorem filter_grows {α : Type} {date : α → ℤ} {old new : List α} {t : ℕ}
    (hsorted : bars.Pairwise fun a b => a.date < b.date)
    (hold : ∀ x ∈ old, DatedIn bars 0 (t + 1) (date x))
    (hnew : ∀ x ∈ new, DatedIn bars (t + 1) bars.length (date x)) :
    (old ++ new).filter (fun x => date x ∈ (bars.take (t + 1)).map Bar.date) = old := by
  have hin : ∀ x ∈ old, date x ∈ (bars.take (t + 1)).map Bar.date := by
    intro x hx
    obtain ⟨u, b, -, hu, hb, hdate⟩ := hold x hx
    rw [← hdate]
    refine List.mem_map_of_mem (List.mem_iff_getElem?.2 ⟨u, ?_⟩)
    rw [List.getElem?_take_of_lt hu, hb]
  have hout : ∀ x ∈ new, date x ∉ (bars.take (t + 1)).map Bar.date := by
    intro x hx hmem
    obtain ⟨v, b, hv, -, hb, hdate⟩ := hnew x hx
    obtain ⟨b', hb', heq⟩ := List.mem_map.1 hmem
    obtain ⟨u, hu⟩ := List.mem_iff_getElem?.1 hb'
    have hut : u < t + 1 := by
      have := (List.getElem?_eq_some_iff.1 hu).1
      rw [List.length_take] at this
      omega
    rw [List.getElem?_take_of_lt hut] at hu
    have := date_lt hsorted (by omega : u < v) hu hb
    omega
  rw [List.filter_append, List.filter_eq_self.2 fun x hx => decide_eq_true (hin x hx),
    List.filter_eq_nil_iff.2 fun x hx h => hout x hx (of_decide_eq_true h), List.append_nil]

/-- **The beginning of a run** over all bars is the run over the first. -/
theorem BacktestEngine.run_take {series : PriceSeries F} {s s' : σ} {r : BacktestResult F}
    (h : e.run S series s = some (.ok (r, s'))) (ht : t < series.bars.length) : ∃ r₁ s₁,
    e.run S (series.take (t + 1)) s = some (.ok (r₁, s₁)) ∧
      r₁.equity = r.equity.take (t + 1) ∧
      r₁.trades = r.trades.filter
        (fun f => f.date ∈ (series.bars.take (t + 1)).map Bar.date) ∧
      r₁.rejections = r.rejections.filter
        (fun x => x.date ∈ (series.bars.take (t + 1)).map Bar.date) := by
  obtain ⟨first, rest, w, hbars, hw, rfl, rfl⟩ := run_eq_ok h
  have hbar : series.bars[t]? = some series.bars[t] := List.getElem?_eq_getElem ht
  obtain ⟨late, warnings, hwalk⟩ := walk_take (e := e) (S := S) series.sorted hbar
  obtain ⟨w₁, hw₁⟩ := walk_of_le (Nat.succ_le_of_lt ht) hw
  obtain ⟨w₀, hw₀, rfl⟩ := hwalk (t + 1) le_rfl w₁ hw₁
  have hlen : (series.bars.take (t + 1)).length = t + 1 := by
    rw [List.length_take]
    omega
  have hfirst : (series.take (t + 1)).bars = first :: rest.take t := by
    rw [PriceSeries.take_bars, hbars, List.take_succ_cons]
  -- the logs up to `t`, then what the later rounds append
  obtain ⟨h₀, points₀, hpoints₀, hequity₀⟩ :=
    walk_grows (Nat.zero_le (t + 1)) rfl hw₁
  obtain ⟨h₁, points₁, hpoints₁, hequity₁⟩ := walk_grows (Nat.succ_le_of_lt ht) hw₁ hw
  refine ⟨_, _, run_of_walk hfirst (by rw [PriceSeries.take_bars, hlen]; exact hw₀), ?_, ?_, ?_⟩
  · have hequity : (w₀.later late warnings).account.result.equity = points₀ := hequity₀
    rw [hequity₁, hequity, List.take_left' (by omega)]
    exact hequity
  · obtain ⟨old, hold, hdated⟩ := h₀.trades
    obtain ⟨new, hnew, hdnew⟩ := h₁.trades
    have hold : (w₀.later late warnings).account.result.trades = old := hold
    rw [hnew, hold, filter_grows series.sorted hdated hdnew]
    exact hold
  · obtain ⟨old, hold, hdated⟩ := h₀.rejections
    obtain ⟨new, hnew, hdnew⟩ := h₁.rejections
    have hold : (w₀.later late warnings).account.result.rejections = old := hold
    rw [hnew, hold, filter_grows series.sorted hdated hdnew]
    exact hold

/-- **No look-ahead**: the run over the bars up to `t` gives the equity points of the first `t + 1`
bars of the run over all of them, and its fills and rejections are those dated on these bars. Series
that agree up to `t` have the same history up to it. -/
theorem no_lookahead (e : BacktestEngine F) (S : Strategy F σ) (series : PriceSeries F) (s : σ)
    {s' : σ} {r : BacktestResult F} (h : e.run S series s = some (.ok (r, s'))) {t : ℕ}
    (ht : t < series.bars.length) :
    (∃ r₁ s₁, e.run S (series.take (t + 1)) s = some (.ok (r₁, s₁)) ∧
      r₁.equity = r.equity.take (t + 1) ∧
      r₁.trades = r.trades.filter
        (fun f => f.date ∈ (series.bars.take (t + 1)).map Bar.date) ∧
      r₁.rejections = r.rejections.filter
        (fun x => x.date ∈ (series.bars.take (t + 1)).map Bar.date)) ∧
    ∀ (other : PriceSeries F) (r₂ : BacktestResult F) (s₂ : σ),
      other.take (t + 1) = series.take (t + 1) → e.run S other s = some (.ok (r₂, s₂)) →
      r₂.equity.take (t + 1) = r.equity.take (t + 1) ∧
      r₂.trades.filter (fun f => f.date ∈ (series.bars.take (t + 1)).map Bar.date) =
        r.trades.filter (fun f => f.date ∈ (series.bars.take (t + 1)).map Bar.date) ∧
      r₂.rejections.filter (fun x => x.date ∈ (series.bars.take (t + 1)).map Bar.date) =
        r.rejections.filter (fun x => x.date ∈ (series.bars.take (t + 1)).map Bar.date) := by
  obtain ⟨r₁, s₁, hrun, hequity, htrades, hrejections⟩ := BacktestEngine.run_take h ht
  refine ⟨⟨r₁, s₁, hrun, hequity, htrades, hrejections⟩, fun other r₂ s₂ hagree hother => ?_⟩
  have hbars : other.bars.take (t + 1) = series.bars.take (t + 1) := congrArg PriceSeries.bars hagree
  have hlen : t < other.bars.length := by
    have hlen := congrArg List.length hbars
    rw [List.length_take, List.length_take] at hlen
    omega
  obtain ⟨r₁', s₁', hrun', hequity', htrades', hrejections'⟩ := BacktestEngine.run_take hother hlen
  rw [hagree, hrun] at hrun'
  cases hrun'
  rw [hbars] at htrades' hrejections'
  exact ⟨hequity'.symm.trans hequity, htrades'.symm.trans htrades,
    hrejections'.symm.trans hrejections⟩

/-- Orders that are filled and rejected on later bars, up to the second bar. -/
theorem no_lookahead_two_bars : ∃ r s',
    (mainEngine [] 1000 (by norm_num) .nextOpen .qfqAsOf [.new 3 0 1]).run
      (scripted [[.buy (.shares 200)], [.sell .max, .sell .max]]) (flatSeries 1) () =
        some (.ok (r, s')) ∧
    ∃ r₁ s₁, (mainEngine [] 1000 (by norm_num) .nextOpen .qfqAsOf [.new 3 0 1]).run
        (scripted [[.buy (.shares 200)], [.sell .max, .sell .max]]) ((flatSeries 1).take 2) () =
          some (.ok (r₁, s₁)) ∧
      r₁.equity = r.equity.take 2 ∧
      r₁.trades = r.trades.filter (fun f => f.date ∈ ((flatSeries 1).bars.take 2).map Bar.date) ∧
      r₁.rejections =
        r.rejections.filter (fun x => x.date ∈ ((flatSeries 1).bars.take 2).map Bar.date) := by
  have hrun : (returned ((mainEngine [] 1000 (by norm_num) .nextOpen .qfqAsOf [.new 3 0 1]).run
      (scripted [[.buy (.shares 200)], [.sell .max, .sell .max]]) (flatSeries 1) ())).isSome := by
    decide +kernel
  obtain ⟨⟨r, s'⟩, hr⟩ := Option.isSome_iff_exists.1 hrun
  have hr := returned_eq_some.1 hr
  exact ⟨r, s', hr, (no_lookahead _ _ _ _ hr (by decide : 1 < 3)).1⟩

end Astock
