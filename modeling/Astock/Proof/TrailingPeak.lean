import Astock.Spec.ExitPolicy

/-!
# What the trailing stop trails

A run of the exit policy over any bars and position snapshots, with the closes since the entry beside it, in
exact arithmetic.

* `Kept`: what every bar keeps, and `kept_feed`: after any bars.
* `evaluated_atr`, `evaluated_orders`, `evaluated_exit`: the average, the orders and the full exits, in every
  run.
* `trailing_peak_sound`: **the peak is the true peak**, if the entry bar does not close above the entry price
  and no held bar closes above the peak before the average is seeded.
-/

namespace Astock.ExitPolicy

/-- A context with the bar that it ends at. -/
structure Seen where
  ctx : StrategyContext ℚ
  bar : Bar ℚ
  last : ctx.bars[ctx.current]? = some bar

def Seen.ohlc (seen : Seen) : Ohlc ℚ := ⟨seen.bar.high, seen.bar.low, seen.bar.close⟩

/-- The policy with its past: all bars, and since the entry bar the closes and the levels of the stop. -/
structure Past where
  policy : ExitPolicy ℚ
  bars : List (Ohlc ℚ)
  closes : List ℚ
  stops : List ℚ

variable {config : ExitPolicyConfig ℚ} {past : Past} {seen : Seen} {inputs : List Seen} {k : ℚ}
  {state : OpenState ℚ}

/-- One bar. -/
def Past.step (past : Past) (seen : Seen) : Past :=
  let policy := (past.policy.onBar seen.ctx seen.bar).1
  { policy := policy
    bars := past.bars ++ [seen.ohlc]
    closes := if past.policy.openState.isSome then past.closes ++ [seen.bar.close] else [seen.bar.close]
    stops := (if past.policy.openState.isSome then past.stops else []) ++
      (policy.openState.map (·.stop.price)).toList }

def feed (config : ExitPolicyConfig ℚ) (inputs : List Seen) : Past :=
  inputs.foldl Past.step ⟨.new config, [], [], []⟩

theorem feed_concat (config : ExitPolicyConfig ℚ) (inputs : List Seen) (seen : Seen) :
    feed config (inputs ++ [seen]) = (feed config inputs).step seen := by
  unfold feed
  rw [List.foldl_append]
  rfl

/-- The orders of the bar. -/
def Past.orders (past : Past) (seen : Seen) : List Order := (past.policy.onBar seen.ctx seen.bar).2

/-- The average after the bar, if it is seeded. -/
def Past.atrNow (past : Past) (seen : Seen) : Option ℚ := (past.policy.atr.update seen.ohlc).2

/-- The policy evaluates a position whose entry is frozen. -/
structure Evaluates (past : Past) (seen : Seen) (state : OpenState ℚ) : Prop where
  frozen : past.policy.openState = some state
  held : seen.ctx.position.shares ≠ 0

/-- The highest of the entry price and the closes. -/
def peakOf (entryPrice : ℚ) (closes : List ℚ) : ℚ := closes.foldl max entryPrice

theorem peakOf_concat (entryPrice : ℚ) (closes : List ℚ) (close : ℚ) :
    peakOf entryPrice (closes ++ [close]) = max (peakOf entryPrice closes) close := by
  unfold peakOf
  rw [List.foldl_append]
  rfl

/-! ## One bar -/

theorem openState_flat (h : seen.ctx.position.shares = 0) : (past.step seen).policy.openState = none := by
  simp only [Past.step, ExitPolicy.onBar, h, if_true]

theorem openState_entry (hflat : past.policy.openState = none) (h : seen.ctx.position.shares ≠ 0) :
    (past.step seen).policy.openState = openPosition past.policy.config seen.ctx
      seen.ctx.position.avgCost seen.ctx.position.shares (past.atrNow seen) := by
  simp only [Past.step, ExitPolicy.onBar, if_neg h, hflat]
  rfl

theorem openState_evaluated (h : Evaluates past seen state) : (past.step seen).policy.openState =
    some (evaluate past.policy.config state seen.bar (past.atrNow seen)).1 := by
  simp only [Past.step, ExitPolicy.onBar, if_neg h.held, h.frozen]
  rfl

theorem orders_evaluated (h : Evaluates past seen state) :
    past.orders seen = (evaluate past.policy.config state seen.bar (past.atrNow seen)).2 := by
  simp only [Past.orders, ExitPolicy.onBar, if_neg h.held, h.frozen]
  rfl

theorem step_config (past : Past) (seen : Seen) : (past.step seen).policy.config = past.policy.config := by
  simp only [Past.step, ExitPolicy.onBar]
  split
  · rfl
  · split <;> rfl

theorem step_atr (past : Past) (seen : Seen) :
    (past.step seen).policy.atr = (past.policy.atr.update seen.ohlc).1 := by
  simp only [Past.step, ExitPolicy.onBar]
  split
  · rfl
  · split <;> rfl

/-- The frozen entry and the tracker after an evaluation. -/
theorem evaluate_frozen (config : ExitPolicyConfig ℚ) (state : OpenState ℚ) (bar : Bar ℚ) (atrNow : Option ℚ) :
    (evaluate config state bar atrNow).1.rm = state.rm ∧
      (evaluate config state bar atrNow).1.trailing = (trail state bar.close atrNow).1 := by
  unfold evaluate
  dsimp only
  split
  · exact ⟨rfl, rfl⟩
  · split
    · exact ⟨rfl, rfl⟩
    · split <;> exact ⟨rfl, rfl⟩

/-- The stop is never lowered. -/
theorem evaluate_stop (config : ExitPolicyConfig ℚ) (state : OpenState ℚ) (bar : Bar ℚ) (atrNow : Option ℚ) :
    state.stop.price ≤ (evaluate config state bar atrNow).1.stop.price := by
  have hraise : ∀ candidate, state.stop.price ≤ (state.stop.raise candidate).price := by
    intro candidate
    unfold StructuralStop.raise
    split
    · next h => exact h.2.le
    · exact le_refl _
  unfold evaluate
  dsimp only
  split
  · exact le_refl _
  · split
    · dsimp only
      split
      · exact hraise _
      · exact le_refl _
    · split <;> exact le_refl _

theorem evaluate_orders (config : ExitPolicyConfig ℚ) (state : OpenState ℚ) (bar : Bar ℚ) (atrNow : Option ℚ) :
    (evaluate config state bar atrNow).2.length ≤ 1 := by
  unfold evaluate
  dsimp only
  split
  · exact le_refl _
  · split
    · exact le_refl _
    · split
      · exact le_refl _
      · exact Nat.zero_le _

/-! ## Every run -/

/-- The tracker of a position with an entry price. -/
def trackerOf (config : ExitPolicyConfig ℚ) (k entryPrice peak : ℚ) : PeakTrailingStop ℚ where
  atrMult := k
  peak := peak
  entryGate := if config.trailingEntryGate then some entryPrice else none

/-- **What every bar keeps.** -/
structure Kept (config : ExitPolicyConfig ℚ) (k : ℚ) (past : Past) : Prop where
  config_eq : past.policy.config = config
  atr : (past.bars.foldl (fun state bar => state.1.update bar)
    ((WilderAtr.new config.atrPeriod : WilderAtr ℚ), none)).1 = past.policy.atr
  stops : past.stops.Pairwise (· ≤ ·)
  stop : ∀ state, past.policy.openState = some state → ∀ level ∈ past.stops, level ≤ state.stop.price
  trailing : ∀ state, past.policy.openState = some state →
    ∃ peak, state.trailing = some (trackerOf config k state.rm.entryPrice peak)

theorem openPosition_some {ctx : StrategyContext ℚ} {entryPrice : ℚ} {entryShares : UInt32} {atrNow : Option ℚ}
    (h : openPosition config ctx entryPrice entryShares atrNow = some state) :
    state.rm.entryPrice = entryPrice ∧
      state.trailing = config.trailingAtrMult.map fun k => .new k entryPrice config.trailingEntryGate := by
  obtain ⟨stopPrice, -, h⟩ := Option.bind_eq_some_iff.1 h
  obtain ⟨rm, hrm, rfl⟩ := Option.map_eq_some_iff.1 h
  unfold RMultiple.new at hrm
  split at hrm
  · obtain rfl := Option.some_injective _ hrm
    exact ⟨rfl, rfl⟩
  · exact absurd hrm (by simp)

/-- What `update` does to the tracker. -/
theorem update_trackerOf (config : ExitPolicyConfig ℚ) (k entryPrice peak close atr : ℚ) :
    (trackerOf config k entryPrice peak).update close atr = (trackerOf config k entryPrice (max peak close),
      if (close ≤ max peak close - k * atr ∧
        (config.trailingEntryGate → entryPrice < max peak close - k * atr)) then
          some (max peak close - k * atr) else none) := by
  have hpeak : (if peak < close then { trackerOf config k entryPrice peak with peak := close }
      else trackerOf config k entryPrice peak) = trackerOf config k entryPrice (max peak close) := by
    rcases lt_or_ge peak close with hlt | hge
    · rw [if_pos hlt, max_eq_right hlt.le]
      rfl
    · rw [if_neg (not_lt.2 hge), max_eq_left hge]
  have hgate : ((trackerOf config k entryPrice (max peak close)).entryGate.all
      (· < max peak close - k * atr)) = true ↔
        (config.trailingEntryGate → entryPrice < max peak close - k * atr) := by
    unfold trackerOf
    cases config.trailingEntryGate <;> simp
  have hlevel : ∀ level, level = max peak close - k * atr →
      (if (trackerOf config k entryPrice (max peak close)).entryGate.all (· < level) ∧ close ≤ level then
        some level else none) = if (close ≤ max peak close - k * atr ∧
          (config.trailingEntryGate → entryPrice < max peak close - k * atr)) then
            some (max peak close - k * atr) else none := by
    rintro _ rfl
    exact if_congr (by rw [hgate, and_comm]) rfl rfl
  unfold PeakTrailingStop.update
  dsimp only
  refine Prod.ext hpeak ?_
  have hraised := congrArg (fun (tracker : PeakTrailingStop ℚ) =>
    if tracker.entryGate.all (· < tracker.stopLevel atr) ∧ close ≤ tracker.stopLevel atr then
      some (tracker.stopLevel atr) else none) hpeak
  exact hraised.trans (hlevel _ rfl)

/-- The tracker after a bar. -/
theorem trail_tracker {peak close : ℚ}
    (h : state.trailing = some (trackerOf config k state.rm.entryPrice peak)) (atrNow : Option ℚ) :
    (trail state close atrNow).1 = some (trackerOf config k state.rm.entryPrice
      (if atrNow.isSome then max peak close else peak)) := by
  cases atrNow with
  | none => exact h
  | some atr =>
    unfold trail
    rw [h]
    dsimp only
    rw [update_trackerOf]
    rfl

theorem Kept.step (hk : config.trailingAtrMult = some k) (h : Kept config k past) (seen : Seen) :
    Kept config k (past.step seen) where
  config_eq := (step_config past seen).trans h.config_eq
  atr := by
    rw [step_atr, ← h.atr]
    exact congrArg Prod.fst List.foldl_append
  stops := by
    show ((if past.policy.openState.isSome then past.stops else []) ++ _).Pairwise _
    cases hopen : past.policy.openState with
    | none =>
      rw [if_neg (by simp), List.nil_append]
      cases (past.policy.onBar seen.ctx seen.bar).1.openState <;> simp
    | some state =>
      rw [if_pos (by rfl)]
      refine List.pairwise_append.2 ⟨h.stops, ?_, fun level hlevel price hprice => ?_⟩
      · cases (past.policy.onBar seen.ctx seen.bar).1.openState <;> simp
      · rw [Option.mem_toList] at hprice
        obtain ⟨after, hafter, rfl⟩ := Option.map_eq_some_iff.1 hprice
        have hheld : seen.ctx.position.shares ≠ 0 := by
          intro hflat
          have hnone : (past.step seen).policy.openState = none := openState_flat hflat
          exact absurd (hafter.symm.trans hnone) (by simp)
        have heval := openState_evaluated ⟨hopen, hheld⟩
        obtain rfl := Option.some_injective _ (hafter.symm.trans heval)
        exact (h.stop state hopen level hlevel).trans (evaluate_stop _ _ _ _)
  stop after hafter level hlevel := by
    have hheld : seen.ctx.position.shares ≠ 0 := by
      intro hflat
      exact absurd (hafter.symm.trans (openState_flat hflat)) (by simp)
    have hstops : (past.step seen).stops =
        (if past.policy.openState.isSome then past.stops else []) ++ [after.stop.price] := by
      show _ ++ Option.toList (Option.map _ (past.step seen).policy.openState) = _
      rw [hafter]
      rfl
    rw [hstops] at hlevel
    rcases List.mem_append.1 hlevel with hlevel | hlevel
    · cases hopen : past.policy.openState with
      | none =>
        rw [hopen] at hlevel
        exact absurd hlevel List.not_mem_nil
      | some state =>
        rw [hopen, if_pos (by rfl)] at hlevel
        have hbefore := h.stop state hopen level hlevel
        have heval := openState_evaluated ⟨hopen, hheld⟩
        obtain rfl := Option.some_injective _ (hafter.symm.trans heval)
        exact hbefore.trans (evaluate_stop _ _ _ _)
    · exact (List.mem_singleton.1 hlevel).le
  trailing after hafter := by
    have hheld : seen.ctx.position.shares ≠ 0 := by
      intro hflat
      exact absurd (hafter.symm.trans (openState_flat hflat)) (by simp)
    cases hopen : past.policy.openState with
    | none =>
      rw [openState_entry hopen hheld, h.config_eq] at hafter
      obtain ⟨hentry, htrailing⟩ := openPosition_some hafter
      refine ⟨seen.ctx.position.avgCost, ?_⟩
      rw [htrailing, hk, hentry]
      rfl
    | some state =>
      rw [openState_evaluated ⟨hopen, hheld⟩] at hafter
      obtain rfl := Option.some_injective _ hafter
      obtain ⟨peak, hpeak⟩ := h.trailing state hopen
      obtain ⟨hrm, htrailing⟩ := evaluate_frozen past.policy.config state seen.bar (past.atrNow seen)
      exact ⟨_, by rw [htrailing, hrm, trail_tracker hpeak]⟩

theorem kept_feed (hk : config.trailingAtrMult = some k) (inputs : List Seen) :
    Kept config k (feed config inputs) := by
  induction inputs using List.reverseRecOn with
  | nil =>
    constructor
    case config_eq => rfl
    case atr => rfl
    case stops => exact .nil
    case stop => exact fun _ h => absurd h (by simp [feed, ExitPolicy.new])
    case trailing => exact fun _ h => absurd h (by simp [feed, ExitPolicy.new])
  | append_singleton inputs seen ih =>
    rw [feed_concat]
    exact ih.step hk seen

/-! ## Evaluations -/

/-- **The average** is that of all bars. -/
theorem evaluated_atr (h : Kept config k past) (seen : Seen) :
    past.atrNow seen = wilderAtr (past.bars ++ [seen.ohlc]) config.atrPeriod := by
  unfold wilderAtr Past.atrNow
  rw [List.foldl_append, ← h.atr]
  rfl

/-- Everything is sold. -/
def FullExit (orders : List Order) : Prop := ∃ reason, orders = [⟨.sell, .max, reason⟩]

/-- **Full exits**: where neither the structural stop nor a stage fires, everything is sold exactly if the
close is at the level of the trailing stop, which is above the entry if there is a gate. -/
theorem evaluated_exit {peak : ℚ} {bar : Bar ℚ} {atrNow : Option ℚ}
    (htracker : state.trailing = some (trackerOf config k state.rm.entryPrice peak))
    (hstop : state.stop.check bar.openPrice bar.low = none)
    (hstage : (state.takeProfit.bind fun tp => (tp.onPrice state.rm bar.high).2) = none) :
    FullExit (evaluate config state bar atrNow).2 ↔ ∃ atr, atrNow = some atr ∧
      bar.close ≤ max peak bar.close - k * atr ∧
        (config.trailingEntryGate → state.rm.entryPrice < max peak bar.close - k * atr) := by
  have horders : (evaluate config state bar atrNow).2 =
      (trail state bar.close atrNow).2.elim [] fun level => (trail state bar.close atrNow).1.elim []
        fun tracker => [⟨.sell, .max, trailReason tracker bar.close level⟩] := by
    unfold evaluate
    dsimp only
    rw [hstop]
    dsimp only
    cases htp : state.takeProfit with
    | none =>
      dsimp only [Option.map_none]
      rcases trail state bar.close atrNow with ⟨_ | tracker, _ | level⟩ <;> rfl
    | some tp =>
      rw [htp, Option.bind_some] at hstage
      dsimp only [Option.map_some]
      split
      · next heq =>
        rw [Option.some_injective _ heq] at hstage
        exact absurd hstage (by simp)
      · rcases trail state bar.close atrNow with ⟨_ | tracker, _ | level⟩ <;> rfl
  have htrail : (trail state bar.close atrNow).1 = _ := trail_tracker htracker atrNow
  rw [horders, htrail]
  cases atrNow with
  | none =>
    have hnone : (trail state bar.close none).2 = none := rfl
    rw [hnone]
    refine iff_of_false ?_ ?_
    · rintro ⟨reason, h⟩
      exact absurd h (by simp)
    · rintro ⟨atr, h, -⟩
      exact absurd h (by simp)
  | some atr =>
    have hlevel : (trail state bar.close (some atr)).2 =
        if (bar.close ≤ max peak bar.close - k * atr ∧
          (config.trailingEntryGate → state.rm.entryPrice < max peak bar.close - k * atr)) then
            some (max peak bar.close - k * atr) else none := by
      unfold trail
      rw [htracker]
      dsimp only
      rw [update_trackerOf]
    rw [hlevel]
    by_cases h : bar.close ≤ max peak bar.close - k * atr ∧
        (config.trailingEntryGate → state.rm.entryPrice < max peak bar.close - k * atr)
    · rw [if_pos h]
      exact iff_of_true ⟨_, rfl⟩ ⟨atr, rfl, h⟩
    · rw [if_neg h]
      refine iff_of_false ?_ ?_
      · rintro ⟨reason, horder⟩
        exact absurd horder (by simp)
      · rintro ⟨atr', heq, hexit⟩
        obtain rfl := Option.some_injective _ heq
        exact h hexit

/-! ## The true peak -/

/-- No close is lost: the bar on which an entry is frozen does not close above its price, and a bar before the
average is seeded does not close above the peak. -/
structure Closes (past : Past) (seen : Seen) : Prop where
  entry : past.policy.openState = none → seen.ctx.position.shares ≠ 0 →
    (openPosition past.policy.config seen.ctx seen.ctx.position.avgCost seen.ctx.position.shares
      (past.atrNow seen)).isSome → seen.bar.close ≤ seen.ctx.position.avgCost
  unseeded : ∀ state tracker, Evaluates past seen state →
    past.policy.atr.seen + 1 < past.policy.atr.period → state.trailing = some tracker →
      seen.bar.close ≤ tracker.peak

theorem atrNow_eq_none (h : past.atrNow seen = none) : past.policy.atr.seen + 1 < past.policy.atr.period := by
  unfold Past.atrNow WilderAtr.update at h
  dsimp only at h
  split at h
  · assumption
  · exact absurd h (by simp)

/-- The peak is that of the closes since the entry. -/
def TruePeak (past : Past) : Prop :=
  ∀ state tracker, past.policy.openState = some state → state.trailing = some tracker →
    tracker.peak = peakOf state.rm.entryPrice past.closes

/-- The peak that an evaluation leaves. -/
theorem evaluated_peak (hkept : Kept config k past) (hpeak : TruePeak past) (h : Closes past seen)
    (heval : Evaluates past seen state) :
    (trail state seen.bar.close (past.atrNow seen)).1 = some (trackerOf config k state.rm.entryPrice
      (peakOf state.rm.entryPrice (past.closes ++ [seen.bar.close]))) := by
  obtain ⟨peak, htracker⟩ := hkept.trailing state heval.frozen
  have hbefore : peak = peakOf state.rm.entryPrice past.closes := hpeak state _ heval.frozen htracker
  rw [trail_tracker htracker, peakOf_concat, ← hbefore]
  cases hatr : past.atrNow seen with
  | none =>
    have hclose : seen.bar.close ≤ peak := h.unseeded state _ heval (atrNow_eq_none hatr) htracker
    rw [if_neg (by simp), max_eq_left hclose]
  | some atr => rw [if_pos (by rfl)]

theorem TruePeak.step (hk : config.trailingAtrMult = some k) (hkept : Kept config k past)
    (hpeak : TruePeak past) (h : Closes past seen) : TruePeak (past.step seen) := by
  intro after tracker hafter htracker
  have hheld : seen.ctx.position.shares ≠ 0 := by
    intro hflat
    exact absurd (hafter.symm.trans (openState_flat hflat)) (by simp)
  cases hopen : past.policy.openState with
  | none =>
    have hcloses : (past.step seen).closes = [seen.bar.close] := by
      show (if past.policy.openState.isSome then _ else _) = _
      rw [hopen, if_neg (by simp)]
    rw [openState_entry hopen hheld] at hafter
    have hclose := h.entry hopen hheld (by rw [hafter]; rfl)
    obtain ⟨hentry, htrailing⟩ := openPosition_some hafter
    rw [htrailing, hkept.config_eq, hk] at htracker
    obtain rfl := Option.some_injective _ htracker
    rw [hcloses, hentry]
    exact (max_eq_left hclose).symm
  | some state =>
    have hcloses : (past.step seen).closes = past.closes ++ [seen.bar.close] := by
      show (if past.policy.openState.isSome then _ else _) = _
      rw [hopen, if_pos (by rfl)]
    have heval : Evaluates past seen state := ⟨hopen, hheld⟩
    rw [openState_evaluated heval] at hafter
    obtain rfl := Option.some_injective _ hafter
    obtain ⟨hrm, htrailing⟩ := evaluate_frozen past.policy.config state seen.bar (past.atrNow seen)
    rw [htrailing, evaluated_peak hkept hpeak h heval] at htracker
    obtain rfl := Option.some_injective _ htracker
    rw [hcloses, hrm]
    rfl

/-- What the trailing stop is for: the evaluation of a held position, with `k` the multiplier. -/
structure Sound (config : ExitPolicyConfig ℚ) (k : ℚ) (past : Past) (seen : Seen) (state : OpenState ℚ) :
    Prop where
  peak : ∃ after tracker, (past.step seen).policy.openState = some after ∧ after.rm = state.rm ∧
    after.trailing = some tracker ∧
      tracker.peak = peakOf state.rm.entryPrice (past.closes ++ [seen.bar.close])
  atr : past.atrNow seen = wilderAtr (past.bars ++ [seen.ohlc]) config.atrPeriod
  stops : (past.step seen).stops.Pairwise (· ≤ ·)
  single : (past.orders seen).length ≤ 1
  exit : state.stop.check seen.bar.openPrice seen.bar.low = none →
    (state.takeProfit.bind fun tp => (tp.onPrice state.rm seen.bar.high).2) = none →
      (FullExit (past.orders seen) ↔ ∃ atr, wilderAtr (past.bars ++ [seen.ohlc]) config.atrPeriod = some atr ∧
        seen.bar.close ≤ peakOf state.rm.entryPrice (past.closes ++ [seen.bar.close]) - k * atr ∧
          (config.trailingEntryGate → state.rm.entryPrice <
            peakOf state.rm.entryPrice (past.closes ++ [seen.bar.close]) - k * atr))

theorem sound_of_truePeak (hk : config.trailingAtrMult = some k) (hkept : Kept config k past)
    (hpeak : TruePeak past) (h : Closes past seen) (heval : Evaluates past seen state) :
    Sound config k past seen state := by
  have hevaluated := openState_evaluated heval
  obtain ⟨hrm, htrailing⟩ := evaluate_frozen past.policy.config state seen.bar (past.atrNow seen)
  obtain ⟨peak, htracker⟩ := hkept.trailing state heval.frozen
  have hbefore : peak = peakOf state.rm.entryPrice past.closes := hpeak state _ heval.frozen htracker
  constructor
  case peak =>
    exact ⟨_, _, hevaluated, hrm, htrailing.trans (evaluated_peak hkept hpeak h heval), rfl⟩
  case atr => exact evaluated_atr hkept seen
  case stops => exact (hkept.step hk seen).stops
  case single =>
    rw [orders_evaluated heval]
    exact evaluate_orders _ _ _ _
  case exit =>
    intro hstop hstage
    rw [orders_evaluated heval, hkept.config_eq, evaluated_exit htracker hstop hstage,
      ← evaluated_atr hkept seen, peakOf_concat, ← hbefore]

theorem truePeak_feed (hk : config.trailingAtrMult = some k) (inputs : List Seen)
    (h : ∀ n seen, inputs[n]? = some seen → Closes (feed config (inputs.take n)) seen) :
    TruePeak (feed config inputs) := by
  induction inputs using List.reverseRecOn with
  | nil => exact fun _ _ h => absurd h (by simp [feed, ExitPolicy.new])
  | append_singleton inputs seen ih =>
    rw [feed_concat]
    refine (ih fun n seen' hn => ?_).step hk (kept_feed hk inputs) ?_
    · have hlt : n < inputs.length := (List.getElem?_eq_some_iff.1 hn).1
      have hcloses := h n seen' ((List.getElem?_append_left hlt).trans hn)
      rwa [List.take_append_of_le_length hlt.le] at hcloses
    · have hcloses := h inputs.length seen List.getElem?_concat_length
      rwa [List.take_left] at hcloses

/-- **The trailing stop trails the true peak**, in every run that loses no close. -/
theorem trailing_peak_sound (config : ExitPolicyConfig ℚ) (k : ℚ) (hk : config.trailingAtrMult = some k)
    (inputs : List Seen)
    (h : ∀ n seen, inputs[n]? = some seen → Closes (feed config (inputs.take n)) seen) :
    ∀ n seen state, inputs[n]? = some seen → Evaluates (feed config (inputs.take n)) seen state →
      Sound config k (feed config (inputs.take n)) seen state := by
  intro n seen state hn heval
  refine sound_of_truePeak hk (kept_feed hk _) (truePeak_feed hk _ fun m seen' hm => ?_) (h n seen hn) heval
  rw [List.getElem?_take] at hm
  split at hm
  · next hlt =>
    rw [List.take_take, min_eq_left hlt.le]
    exact h m seen' hm
  · exact absurd hm (by simp)

/-- A stop at 5 % and a trailing stop at three average true ranges. -/
def trailing : ExitPolicyConfig ℚ where
  initialStop := .fixedFraction (1 / 20)
  atrPeriod := 1
  scaleOut := []
  breakevenAfterPartial := false
  trailingAtrMult := some 3
  trailingEntryGate := false
  scaleOut_valid := rfl
  initialStop_valid := fun _ h => by cases h
  trailing_valid := fun k h => by
    obtain rfl := Option.some_injective _ h
    exact ⟨rfl, by decide⟩
  period_pos := le_refl 1

/-- The only visible bar, with a position that was bought at 10. -/
def heldAt (close : ℚ) : Seen where
  ctx := { bars := [⟨0, 10, close, close, 10, 1, none, false⟩], current := 0, position := ⟨100, 100, 10, 0⟩ }
  bar := ⟨0, 10, close, close, 10, 1, none, false⟩
  last := rfl

/-- An entry at its price and two more closes. -/
theorem trailing_peak_followed : ∃ state,
    Evaluates (feed trailing [heldAt 10, heldAt 12]) (heldAt 11) state ∧
      Sound trailing 3 (feed trailing [heldAt 10, heldAt 12]) (heldAt 11) state := by
  have hopen : (feed trailing [heldAt 10, heldAt 12]).policy.openState.isSome = true := by decide +kernel
  obtain ⟨state, hstate⟩ := Option.isSome_iff_exists.1 hopen
  have heval : Evaluates (feed trailing [heldAt 10, heldAt 12]) (heldAt 11) state :=
    ⟨hstate, by decide⟩
  refine ⟨state, heval, trailing_peak_sound trailing 3 rfl [heldAt 10, heldAt 12, heldAt 11]
    (fun n seen hn => ?_) 2 (heldAt 11) state rfl heval⟩
  constructor
  case entry =>
    intro hflat
    match n, hn with
    | 0, hn =>
      obtain rfl := Option.some_injective _ hn
      exact fun _ _ => by decide
    | 1, _ =>
      have h : (feed trailing [heldAt 10]).policy.openState.isNone = false := by decide +kernel
      exact absurd ((Option.isNone_iff_eq_none.2 hflat).symm.trans h) (by decide)
    | 2, _ => exact absurd (hstate.symm.trans hflat) (by simp)
  case unseeded =>
    intro _ _ _ hseeded
    have hperiod : (feed trailing ([heldAt 10, heldAt 12, heldAt 11].take n)).policy.atr.period = 1 := by
      match n, hn with
      | 0, _ => decide
      | 1, _ => decide
      | 2, _ => decide +kernel
    rw [hperiod] at hseeded
    exact absurd hseeded (Nat.not_lt.2 (Nat.succ_le_succ (Nat.zero_le _)))

/-- The entry bar closes at 11, the next one at 10: the tracked peak is 10. -/
theorem entry_close_lost : ¬ ∀ (config : ExitPolicyConfig ℚ) (k : ℚ), config.trailingAtrMult = some k →
    ∀ (inputs : List Seen) n seen state, inputs[n]? = some seen →
      Evaluates (feed config (inputs.take n)) seen state →
        Sound config k (feed config (inputs.take n)) seen state := by
  intro h
  have hopen : (feed trailing [heldAt 11]).policy.openState.isSome = true := by decide +kernel
  obtain ⟨state, hstate⟩ := Option.isSome_iff_exists.1 hopen
  obtain ⟨after, tracker, hafter, hrm, htracker, hpeak⟩ :=
    (h trailing 3 rfl [heldAt 11, heldAt 10] 1 (heldAt 10) state rfl ⟨hstate, by decide⟩).peak
  have htracked : ((feed trailing [heldAt 11]).step (heldAt 10)).policy.openState.map
      (fun after => (after.trailing.map (·.peak), after.rm.entryPrice)) = some (some 10, 10) := by
    decide +kernel
  change ((feed trailing [heldAt 11]).step (heldAt 10)).policy.openState = some after at hafter
  rw [hafter, Option.map_some, htracker] at htracked
  have hentry : after.rm.entryPrice = 10 := congrArg Prod.snd (Option.some_injective _ htracked)
  have hten : tracker.peak = 10 := Option.some_injective _ (congrArg Prod.fst (Option.some_injective _ htracked))
  rw [← hrm, hentry, hten] at hpeak
  exact absurd hpeak (by decide)

end Astock.ExitPolicy
