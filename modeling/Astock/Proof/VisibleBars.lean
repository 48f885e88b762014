import Astock.Proof.AdjustedBars
import Astock.Proof.BacktestSteps

/-!
# The bars that a strategy sees

* `Strategy.recorded`: the strategy that also keeps what it was asked with and its answers;
  `walk_recorded` and `run_recorded`: it runs as the strategy does.
* `walk_visible`: the visible bars of a walk are the bars so far, each scaled by the factors from its
  date to the last bar.
* `visible_eq_qfq`: **incremental and batch forward adjustment agree.**
-/

namespace Astock

open Float64 Sorted

/-! ## Recording -/

section Recorded

variable {F σ : Type} [Float64 F]

omit [Float64 F] in
/-- The strategy that also keeps what it was asked with and its answers. -/
def Strategy.recorded (S : Strategy F σ) :
    Strategy F (σ × List (StrategyContext F × List Order)) where
  onBar s ctx t :=
    let answer := S.onBar s.1 ctx t
    ((answer.1, s.2 ++ [(ctx, answer.2)]), answer.2)

omit [Float64 F] in
/-- The walk without the record. -/
def Walk.forget {ρ : Type} (w : Walk F (σ × ρ)) : Walk F σ where
  account := w.account
  pending := w.pending
  lastClose := w.lastClose
  visible := w.visible
  multipliers := w.multipliers
  pendingMult := w.pendingMult
  strategy := w.strategy.1

namespace BacktestEngine

variable {e : BacktestEngine F} {S : Strategy F σ} {bars : List (Bar F)} {t : ℕ} {first : Bar F}
  {s : σ}

theorem openBar_forget {ρ : Type} (bar : Bar F) (w : Walk F (σ × ρ)) :
    (e.openBar bar w).forget = e.openBar bar w.forget := by
  rw [openBar, openBar]
  cases e.config.adjustment with
  | raw => rfl
  | qfqAsOf =>
    dsimp only
    rw [Walk.reanchor, Walk.reanchor]
    dsimp only [Walk.forget]
    split <;> rfl

theorem due_recorded (w : Walk F (σ × List (StrategyContext F × List Order))) :
    e.due S.recorded bars t w = e.due S bars t w.forget := rfl

/-- The record of a round: what the strategy was asked with, and its answer. -/
theorem traded_recorded (e : BacktestEngine F) (S : Strategy F σ) (bars : List (Bar F)) (t : ℕ)
    (w : Walk F (σ × List (StrategyContext F × List Order))) (account : Account F) :
    (e.traded S.recorded bars t w account).forget = e.traded S bars t w.forget account ∧
      (e.traded S.recorded bars t w account).strategy.2 = w.strategy.2 ++
        [(e.asked bars t w account,
          (S.onBar w.strategy.1 (e.asked bars t w account) t).2)] :=
  ⟨rfl, rfl⟩

/-- **A recorded walk** is the walk. -/
theorem walk_recorded {n : ℕ} : ∀ {w : Walk F σ}, e.walk S bars first s n = some w →
    ∃ w', e.walk S.recorded bars first (s, []) n = some w' ∧ w'.forget = w := by
  induction n with
  | zero =>
    intro w h
    obtain rfl := Option.some.inj h
    exact ⟨_, rfl, rfl⟩
  | succ n ih =>
    intro w h
    obtain ⟨w₁, hw₁, hround⟩ := walk_succ_eq_some.1 h
    obtain ⟨w₁', hw₁', rfl⟩ := ih hw₁
    obtain ⟨bar, account, hbar, hall, rfl⟩ := onBar_eq_some.1 hround
    rw [← openBar_forget] at hall ⊢
    refine ⟨_, walk_succ_eq_some.2 ⟨w₁', hw₁', onBar_eq_some.2 ⟨bar, account, hbar, hall, rfl⟩⟩, ?_⟩
    rfl

/-- A walk of the recorded strategy is one of the strategy. -/
theorem walk_forget {n : ℕ} : ∀ {w : Walk F (σ × List (StrategyContext F × List Order))},
    e.walk S.recorded bars first (s, []) n = some w → e.walk S bars first s n = some w.forget := by
  induction n with
  | zero =>
    intro w h
    obtain rfl := Option.some.inj h
    rfl
  | succ n ih =>
    intro w h
    obtain ⟨w₁, hw₁, hround⟩ := walk_succ_eq_some.1 h
    obtain ⟨bar, account, hbar, hall, rfl⟩ := onBar_eq_some.1 hround
    refine walk_succ_eq_some.2 ⟨_, ih hw₁, onBar_eq_some.2 ⟨bar, account, hbar, ?_, ?_⟩⟩
    · rw [← openBar_forget]
      exact hall
    · rw [← openBar_forget]
      rfl

theorem run_recorded {series : PriceSeries F} {s' : σ} {r : BacktestResult F}
    (h : e.run S series s = some (.ok (r, s'))) : ∃ log,
    e.run S.recorded series (s, []) = some (.ok (r, (s', log))) := by
  obtain ⟨first, rest, w, hbars, hw, rfl, rfl⟩ := run_eq_ok h
  obtain ⟨w', hw', rfl⟩ := walk_recorded hw
  exact ⟨w'.strategy.2, run_of_walk hbars hw'⟩

end BacktestEngine

end Recorded

/-! ## The visible bars -/

section Exact

variable {σ : Type} {e : BacktestEngine ℚ} {S : Strategy ℚ σ} {bars : List (Bar ℚ)} {t n : ℕ}
  {mults : List (ℤ × ℚ)} {w w' : Walk ℚ σ} {bar first : Bar ℚ} {s : σ} {lo hi d : ℤ}

def Bar.prices {F : Type} (b : Bar F) : Prices F := ⟨b.openPrice, b.close, b.high, b.low⟩

/-- Folding factors of one date keeps the products. -/
theorem within_foldFactor (folded : List (ℤ × ℚ)) (factor : ℤ × ℚ) :
    Dated.within lo hi (foldFactor folded factor) = Dated.within lo hi (folded ++ [factor]) := by
  rcases List.eq_nil_or_concat folded with rfl | ⟨init, last, rfl⟩
  · rfl
  · simp only [List.concat_eq_append, foldFactor, List.getLast?_concat]
    split
    · rename_i hdate
      rw [List.dropLast_concat, List.append_assoc, Dated.within_append, Dated.within_append,
        List.singleton_append, Dated.within_cons, Dated.within_cons, Dated.within_cons, ← hdate]
      by_cases h : lo < last.1 ∧ last.1 ≤ hi
      · rw [if_pos h, if_pos h, if_pos h, Dated.within_nil, mul_one, mul_one]
      · rw [if_neg h, if_neg h, if_neg h, one_mul, one_mul]
    · rfl

theorem within_folded (factors : List (ℤ × ℚ)) : ∀ folded : List (ℤ × ℚ),
    Dated.within lo hi (factors.foldl foldFactor folded) =
      Dated.within lo hi (folded ++ factors) := by
  induction factors with
  | nil => intro folded; rw [List.append_nil]; rfl
  | cons factor rest ih =>
    intro folded
    rw [List.foldl_cons, ih, List.append_cons, Dated.within_append, within_foldFactor,
      ← Dated.within_append]

/-- **What falls due** at a date: the product of the multipliers up to it. -/
theorem takeDue_eq (hsorted : mults.Pairwise fun p q => p.1 ≤ q.1) (hlo : ∀ p ∈ mults, lo < p.1) :
    ∀ pending : ℚ, takeDue d pending mults =
      (pending * Dated.within lo d mults, mults.filter fun p => d < p.1) := by
  induction mults with
  | nil => intro pending; rw [takeDue, Dated.within_nil, mul_one]; rfl
  | cons p rest ih =>
    intro pending
    obtain ⟨hp, hsorted⟩ := List.pairwise_cons.1 hsorted
    rw [takeDue, Dated.within_cons]
    split
    · rename_i hle
      rw [ih hsorted fun q hq => hlo q (List.mem_cons_of_mem _ hq),
        if_pos ⟨hlo p List.mem_cons_self, hle⟩, List.filter_cons_of_neg (by simpa using hle), mul_assoc]
    · rename_i hle
      have hlate : ∀ q ∈ p :: rest, d < q.1 := by
        intro q hq
        rcases List.mem_cons.1 hq with rfl | hq
        · exact not_le.1 hle
        · exact (not_le.1 hle).trans_le (hp q hq)
      have hone : Dated.within lo d rest = 1 := by
        rw [Dated.within, List.filter_eq_nil_iff.2]
        · rfl
        · intro q hq h
          have h := of_decide_eq_true h
          exact absurd (hlate q (List.mem_cons_of_mem _ hq)) (not_lt.2 h.2)
      rw [if_neg fun h => hle h.2, hone, mul_one, mul_one,
        List.filter_eq_self.2 fun q hq => decide_eq_true (hlate q hq)]

theorem Bar.rescale_rescale (b : Bar ℚ) (x y : ℚ) : (b.rescale x).rescale y = b.rescale (x * y) := by
  simp only [Bar.rescale, mul_assoc]

theorem Bar.rescale_one (b : Bar ℚ) : b.rescale 1 = b := by
  simp only [Bar.rescale, mul_one]

/-- The visible bars of a walk are the bars so far, scaled to their date `d`. -/
structure Anchored (mults : List (ℤ × ℚ)) (seen : List (Bar ℚ)) (d : ℤ) (w : Walk ℚ σ) : Prop where
  pending : w.pendingMult = 1
  multipliers : w.multipliers = mults.filter fun p => d < p.1
  visible : w.visible = seen.map fun b => b.rescale (Dated.within b.date d mults)
  before : ∀ b ∈ seen, b.date ≤ d

/-- **Anchoring the visible bars at the next bar.** -/
theorem Anchored.reanchor (hsorted : mults.Pairwise fun p q => p.1 ≤ q.1) {seen : List (Bar ℚ)}
    (h : Anchored mults seen d w) (hd : d ≤ bar.date) :
    Anchored mults (seen ++ [bar]) bar.date (w.reanchor bar) := by
  have hdue : takeDue bar.date w.pendingMult w.multipliers =
      (Dated.within d bar.date mults, mults.filter fun p => bar.date < p.1) := by
    have hlo : ∀ p ∈ mults.filter (fun p => d < p.1), d < p.1 :=
      fun p hp => of_decide_eq_true (List.mem_filter.1 hp).2
    rw [h.pending, h.multipliers, takeDue_eq (hsorted.filter _) hlo, one_mul,
      Dated.within_filter_after le_rfl, List.filter_filter]
    congr 1
    refine List.filter_congr fun p _ => ?_
    by_cases hp : bar.date < p.1
    · simp [hp, hd.trans_lt hp]
    · simp [hp]
  have hself : bar.rescale (Dated.within bar.date bar.date mults) = bar := by
    rw [Dated.within_self, Bar.rescale_one]
  have hscaled : seen.map (fun b => b.rescale (Dated.within b.date bar.date mults)) =
      w.visible.map (·.rescale (Dated.within d bar.date mults)) := by
    rw [h.visible, List.map_map]
    refine List.map_congr_left fun b hb => ?_
    rw [Function.comp, Bar.rescale_rescale, Dated.within_mul_within (h.before b hb) hd]
  have hvisible : (w.reanchor bar).visible =
      (seen ++ [bar]).map fun b => b.rescale (Dated.within b.date bar.date mults) := by
    rw [List.map_append, List.map_singleton, hself, hscaled, Walk.reanchor, hdue]
    dsimp only
    split
    · rfl
    · rename_i hone
      have hone : Dated.within d bar.date mults = 1 := by simpa using hone
      rw [hone]
      simp only [Bar.rescale_one, List.map_id']
  constructor
  · rw [Walk.reanchor, hdue]
    dsimp only
    split
    · rfl
    · rename_i hone
      simpa using hone
  · rw [Walk.reanchor, hdue]
    dsimp only
    split <;> rfl
  · exact hvisible
  · intro b hb
    rcases List.mem_append.1 hb with hb | hb
    · exact (h.before b hb).trans hd
    · rw [List.mem_singleton.1 hb]

/-- The multipliers come in order, after the first bar, and multiply to what the factors do. -/
theorem multipliers_facts (hpolicy : e.config.adjustment = .qfqAsOf)
    (hsorted : bars.Pairwise fun a b => a.date < b.date) (hfirst : bars[0]? = some first) :
    ((e.multipliers bars).1.Pairwise fun p q => p.1 ≤ q.1) ∧
      (∀ p ∈ (e.multipliers bars).1, first.date < p.1) ∧
      ∃ last, bars.getLast? = some last ∧ ∀ lo hi, Dated.within lo hi (e.multipliers bars).1 =
        Dated.within lo hi
          (actionFactors (bars.map Bar.toCore) e.config.corporateActions last.date none).1 := by
  obtain ⟨last, hlast, -⟩ := exists_last hsorted hfirst
  have heq : (e.multipliers bars).1 =
      (actionFactors (bars.map Bar.toCore) e.config.corporateActions last.date none).1.foldl
        foldFactor [] := by
    simp only [BacktestEngine.multipliers, hpolicy, hlast]
  have hhead : (bars.map Bar.toCore).head? = some first.toCore := by
    rw [List.head?_map, List.head?_eq_getElem?, hfirst]
    rfl
  rw [heq]
  refine ⟨folded_sorted (actionFactors_sorted _ _ _ _), fun p hp => ?_, last, hlast, fun lo hi => ?_⟩
  · obtain ⟨q, hq, hdate⟩ := mem_of_folded hp
    rw [← hdate]
    exact factor_after hhead hq
  · rw [within_folded, List.nil_append]

/-- **The visible bars of a walk** are anchored at its last bar. -/
theorem walk_visible (hpolicy : e.config.adjustment = .qfqAsOf)
    (hsorted : bars.Pairwise fun a b => a.date < b.date) (hfirst : bars[0]? = some first) :
    ∀ {n : ℕ} {w : Walk ℚ σ}, e.walk S bars first s n = some w →
      ∃ d, Anchored (e.multipliers bars).1 (bars.take n) d w ∧
        ∀ bar, bars[n]? = some bar → d ≤ bar.date := by
  obtain ⟨hmults, hafter, -⟩ := multipliers_facts hpolicy hsorted hfirst
  intro n
  induction n with
  | zero =>
    intro w h
    obtain rfl := Option.some.inj h
    refine ⟨first.date, ⟨rfl, ?_, rfl, fun b hb => absurd hb List.not_mem_nil⟩, ?_⟩
    · exact (List.filter_eq_self.2 fun p hp => decide_eq_true (hafter p hp)).symm
    · intro bar hbar
      rw [hfirst] at hbar
      rw [Option.some.inj hbar]
  | succ n ih =>
    intro w h
    obtain ⟨w₁, hw₁, hround⟩ := BacktestEngine.walk_succ_eq_some.1 h
    obtain ⟨d, hanchored, hd⟩ := ih hw₁
    obtain ⟨bar, account, hbar, -, rfl⟩ := BacktestEngine.onBar_eq_some.1 hround
    have hopen : Anchored (e.multipliers bars).1 (bars.take n ++ [bar]) bar.date
        (e.openBar bar w₁) := by
      have hstart : Anchored (e.multipliers bars).1 (bars.take n) d
          { w₁ with account.pf.sellable := w₁.account.pf.shares } :=
        ⟨hanchored.pending, hanchored.multipliers, hanchored.visible, hanchored.before⟩
      simp only [BacktestEngine.openBar, hpolicy]
      exact hstart.reanchor hmults (hd bar hbar)
    have htake : bars.take (n + 1) = bars.take n ++ [bar] := by
      rw [List.take_add_one, hbar]
      rfl
    rw [htake]
    refine ⟨bar.date, ⟨hopen.pending, hopen.multipliers, hopen.visible, hopen.before⟩, ?_⟩
    intro next hnext
    exact (date_lt hsorted (Nat.lt_succ_self n) hbar hnext).le

theorem asked_bars (w : Walk ℚ σ) (account : Account ℚ) :
    (e.asked bars t w account).bars = e.barsForCtx bars w.visible t := by
  rw [BacktestEngine.asked]
  cases e.config.execution <;> rfl

/-- **What the strategy sees at a bar**: each bar so far, scaled by the factors up to this bar. -/
theorem seen_at (hpolicy : e.config.adjustment = .qfqAsOf)
    (hsorted : bars.Pairwise fun a b => a.date < b.date) (hfirst : bars[0]? = some first)
    (hw : e.walk S bars first s t = some w) (hbar : bars[t]? = some bar) (account : Account ℚ) :
    (e.asked bars t (e.openBar bar w) account).bars = (bars.take (t + 1)).map fun b =>
      b.rescale (Dated.within b.date bar.date (e.multipliers bars).1) := by
  obtain ⟨hmults, -, -⟩ := multipliers_facts hpolicy hsorted hfirst
  obtain ⟨d, hanchored, hd⟩ := walk_visible hpolicy hsorted hfirst hw
  have hstart : Anchored (e.multipliers bars).1 (bars.take t) d
      { w with account.pf.sellable := w.account.pf.shares } :=
    ⟨hanchored.pending, hanchored.multipliers, hanchored.visible, hanchored.before⟩
  have htake : bars.take (t + 1) = bars.take t ++ [bar] := by
    rw [List.take_add_one, hbar]
    rfl
  have hvisible := (hstart.reanchor hmults (hd bar hbar)).visible
  rw [← htake] at hvisible
  have hlen := (List.getElem?_eq_some_iff.1 hbar).1
  rw [asked_bars]
  simp only [BacktestEngine.barsForCtx, BacktestEngine.openBar, hpolicy]
  rw [hvisible, List.take_of_length_le]
  rw [List.length_map, List.length_take]
  omega

/-- The visible prices at a bar are those of `computeQfq` on the bars up to it. -/
theorem seen_prices (hpolicy : e.config.adjustment = .qfqAsOf)
    (hsorted : bars.Pairwise fun a b => a.date < b.date) (hfirst : bars[0]? = some first)
    (hbar : bars[t]? = some bar) :
    ((bars.take (t + 1)).map fun b =>
        b.rescale (Dated.within b.date bar.date (e.multipliers bars).1)).map Bar.prices =
      (computeQfq ((bars.take (t + 1)).map Bar.toCore) e.config.corporateActions bar.date
        none).bars.map CoreBar.prices := by
  obtain ⟨-, -, last, hlast, hwithin⟩ := multipliers_facts (e := e) hpolicy hsorted hfirst
  obtain ⟨last', hlast', hle⟩ := exists_last hsorted hbar
  obtain rfl : last' = last := by
    rw [hlast] at hlast'
    exact (Option.some.inj hlast').symm
  have hcore : (bars.map Bar.toCore)[t]? = some bar.toCore := by rw [List.getElem?_map, hbar]; rfl
  have hfactors := actionFactors_take e.config.corporateActions none hcore hle
  rw [← List.map_take] at hfactors
  rw [computeQfq_prices, List.map_map, List.map_map]
  refine List.map_congr_left fun b hb => ?_
  have hafter : Dated.after b.date (actionFactors ((bars.take (t + 1)).map Bar.toCore)
      e.config.corporateActions bar.date none).1 =
        Dated.within b.date bar.date (e.multipliers bars).1 := by
    rw [hwithin]
    exact (congrArg (Dated.after b.date) hfactors.symm).trans (Dated.after_filter _)
  rw [Function.comp, Function.comp]
  change Prices.map (· * Dated.within b.date bar.date (e.multipliers bars).1) b.prices = _
  rw [← hafter]
  rfl

end Exact

/-! ## The claim on runs -/

variable {σ : Type}

/-- **Incremental and batch forward adjustment agree**: after any number of bars, what the strategy
has been asked with at each of them shows the prices that `computeQfq` gives for the bars up to it,
anchored at its date; its own prices are the raw ones. -/
theorem visible_eq_qfq (e : BacktestEngine ℚ) (S : Strategy ℚ σ) (series : PriceSeries ℚ) (s : σ)
    (hpolicy : e.config.adjustment = .qfqAsOf) {first : Bar ℚ} (hfirst : series.bars[0]? = some first)
    {n : ℕ} {w : Walk ℚ (σ × List (StrategyContext ℚ × List Order))}
    (hw : e.walk S.recorded series.bars first (s, []) n = some w) :
    w.strategy.2.length = n ∧ ∀ (t : ℕ) (bar : Bar ℚ) (ctx : StrategyContext ℚ) (orders : List Order),
      series.bars[t]? = some bar → w.strategy.2[t]? = some (ctx, orders) →
      ctx.bars.map Bar.prices = (computeQfq ((series.bars.take (t + 1)).map Bar.toCore)
          e.config.corporateActions bar.date none).bars.map CoreBar.prices ∧
        ctx.bars.getLast?.map Bar.prices = some bar.prices := by
  induction n generalizing w with
  | zero =>
    obtain rfl := Option.some.inj hw
    exact ⟨rfl, fun t bar ctx orders _ h => by cases h⟩
  | succ n ih =>
    obtain ⟨w₁, hw₁, hround⟩ := BacktestEngine.walk_succ_eq_some.1 hw
    obtain ⟨hlen, hall⟩ := ih hw₁
    obtain ⟨bar, account, hbar, -, rfl⟩ := BacktestEngine.onBar_eq_some.1 hround
    have hlog : ((e.traded S.recorded series.bars n (e.openBar bar w₁) account).mark bar).strategy.2 =
        w₁.strategy.2 ++ [(e.asked series.bars n (e.openBar bar w₁) account,
          (S.onBar (e.openBar bar w₁).strategy.1
            (e.asked series.bars n (e.openBar bar w₁) account) n).2)] := by
      have hrecord := (BacktestEngine.traded_recorded e S series.bars n (e.openBar bar w₁) account).2
      rw [BacktestEngine.openBar_strategy] at hrecord ⊢
      exact hrecord
    rw [hlog]
    refine ⟨by rw [List.length_append, hlen]; rfl, fun t bar' ctx orders hbar' hctx => ?_⟩
    rcases Nat.lt_or_ge t n with ht | ht
    · rw [List.getElem?_append_left (by omega)] at hctx
      exact hall t bar' ctx orders hbar' hctx
    · -- the entry of this round
      have htn : t = n := by
        have := (List.getElem?_eq_some_iff.1 hctx).1
        rw [List.length_append, List.length_singleton, hlen] at this
        omega
      subst htn
      rw [List.getElem?_append_right (by omega), hlen, Nat.sub_self] at hctx
      obtain ⟨rfl, -⟩ := Prod.mk.inj (Option.some.inj hctx)
      rw [hbar] at hbar'
      obtain rfl := Option.some.inj hbar'
      have hseen := seen_at hpolicy series.sorted hfirst hw₁ hbar account
      rw [hseen]
      refine ⟨seen_prices hpolicy series.sorted hfirst hbar, ?_⟩
      rw [List.getLast?_map, getLast?_take hbar, Option.map_some, Option.map_some, Dated.within_self,
        Bar.rescale_one]

/-- An engine with a bonus issue on the third day. -/
def bonusEngine : BacktestEngine ℚ :=
  mainEngine [] 1000 (by norm_num) .nextOpen .qfqAsOf [.new 3 0 1]

/-- Three bars at one price, the last on the date of the bonus issue. -/
theorem visible_eq_qfq_bonus : ∃ w : Walk ℚ (Unit × List (StrategyContext ℚ × List Order)),
    w.strategy.2.length = 3 ∧ ∀ (t : ℕ) (bar : Bar ℚ) (ctx : StrategyContext ℚ) (orders : List Order),
      (flatSeries 1).bars[t]? = some bar → w.strategy.2[t]? = some (ctx, orders) →
      ctx.bars.map Bar.prices = (computeQfq (((flatSeries 1).bars.take (t + 1)).map Bar.toCore)
          bonusEngine.config.corporateActions bar.date none).bars.map CoreBar.prices ∧
        ctx.bars.getLast?.map Bar.prices = some bar.prices := by
  have hwalk : (bonusEngine.walk (scripted []).recorded (flatSeries 1).bars (.flat 1 1) ((), [])
      3).isSome := by
    decide +kernel
  obtain ⟨w, hw⟩ := Option.isSome_iff_exists.1 hwalk
  have hfirst : (flatSeries 1).bars[0]? = some (.flat 1 1) := rfl
  exact ⟨w, visible_eq_qfq bonusEngine (scripted []) (flatSeries 1) () rfl hfirst hw⟩

end Astock
