import Astock.Proof.AdjustedBars

/-!
# The formula of forward adjustment

In exact arithmetic a forward-adjusted price is the raw price times the ratios of the actions after its
date that are known and have one.

* `actionFactor_eq`: a round of the loop gives an action its ratio, or says why it has none.
* `computeQfq_prices_eq`, `computeQfq_perm`: the product over a set of actions, in any order.
* `qfq_formula`: the formula, and what is said of the actions without a ratio.
-/

namespace Astock

open Float64 Sorted

variable {bars : List (CoreBar ℚ)} {actions actions' : List (CorporateAction ℚ)} {anchor : ℤ}
  {cutoff : Option ℤ} {action : CorporateAction ℚ} {w : AdjustWarning ℚ}

/-! ## The ratio of an action -/

/-- The close of the last bar before a date. -/
def previousClose (bars : List (CoreBar ℚ)) (d : ℤ) : Option ℚ :=
  ((bars.filter (·.date < d)).getLast?).map (·.close)

/-- The rights ratio `R`: none is taken up when there are rights without a price. -/
def CorporateAction.rightsTaken (action : CorporateAction ℚ) : ℚ :=
  if action.rightsPrice = none ∧ 0 < action.rightsRatio then 0 else action.rightsRatio

/-- `X = (C - D + P * R) / (1 + B + R)`. -/
def CorporateAction.exPrice (action : CorporateAction ℚ) (close : ℚ) : ℚ :=
  (close - action.cashDiv + action.rightsPrice.getD 0 * action.rightsTaken) /
    (1 + action.bonusShare + action.rightsTaken)

/-- `X / C`, when both are positive. -/
def ratio (bars : List (CoreBar ℚ)) (action : CorporateAction ℚ) : Option ℚ :=
  (previousClose bars action.exDate).bind fun close =>
    if 0 < close ∧ 0 < action.exPrice close then some (action.exPrice close / close) else none

/-- Why an action has no ratio. -/
def skipWarning (bars : List (CoreBar ℚ)) (action : CorporateAction ℚ) : AdjustWarning ℚ :=
  match previousClose bars action.exDate with
  | none => .missingPrevClose action.exDate
  | some close =>
    if close ≤ 0 then .nonPositivePrevClose action.exDate close
    else .nonPositiveExPrice action.exDate (action.exPrice close)

/-- An action is known at the anchor, and by the cutoff when it has a notice. -/
def CorporateAction.Eligible (action : CorporateAction ℚ) (anchor : ℤ) (cutoff : Option ℤ) : Prop :=
  action.exDate ≤ anchor ∧ ∀ c ∈ cutoff, ∀ notice ∈ action.noticeDate, notice ≤ c

instance (action : CorporateAction ℚ) (anchor : ℤ) (cutoff : Option ℤ) :
    Decidable (action.Eligible anchor cutoff) := inferInstanceAs (Decidable (_ ∧ _))

/-- The date that a warning names. -/
def AdjustWarning.exDate : AdjustWarning ℚ → ℤ
  | rightsWithoutPrice d | missingPrevClose d | nonPositivePrevClose d _ | nonPositiveExPrice d _ => d

/-- The warning is about an action that was skipped. -/
def AdjustWarning.skips : AdjustWarning ℚ → Bool
  | rightsWithoutPrice _ => false
  | _ => true

/-- The bar that the search finds. -/
theorem previousClose_eq (hsorted : bars.Pairwise fun a b => a.date ≤ b.date) (d : ℤ) :
    previousClose bars d = match partitionPoint (fun b => b.date < d) bars with
      | 0 => none
      | i + 1 => (bars[i]?).map (·.close) := by
  have htake : bars.takeWhile (fun b => decide (b.date < d)) = bars.filter (·.date < d) := by
    refine takeWhile_eq_filter CoreBar.date hsorted fun a b hab hb => ?_
    exact decide_eq_true (hab.trans_lt (of_decide_eq_true hb))
  rw [previousClose, ← htake, partitionPoint]
  cases hlength : (bars.takeWhile fun b => decide (b.date < d)).length with
  | zero => rw [List.length_eq_zero_iff.1 hlength]; rfl
  | succ i =>
    have hprefix := List.takeWhile_prefix (l := bars) (p := fun b => decide (b.date < d))
    have hi : i < (bars.takeWhile fun b => decide (b.date < d)).length := by omega
    have hget : (bars.takeWhile fun b => decide (b.date < d))[i]? = bars[i]? := by
      rw [List.prefix_iff_getElem?.1 hprefix i hi, List.getElem?_eq_getElem hi]
    rw [List.getLast?_eq_getElem?, hlength, Nat.add_sub_cancel, hget]

theorem rights_eq (action : CorporateAction ℚ) : action.rights.1.1 = action.rightsTaken ∧
    action.rights.1.2 * action.rights.1.1 = action.rightsPrice.getD 0 * action.rightsTaken ∧
    ∀ w ∈ action.rights.2, w = .rightsWithoutPrice action.exDate := by
  rw [CorporateAction.rights, CorporateAction.rightsTaken]
  cases hprice : action.rightsPrice with
  | none =>
    by_cases hpos : 0 < action.rightsRatio
    · simp [hpos]
    · simp [hpos]
  | some price => simp

/-- **A round of the loop**: the action has its ratio and nothing is said of it being skipped, or it has
none and one warning says why; every warning names its date. -/
theorem actionFactor_eq (hsorted : bars.Pairwise fun a b => a.date ≤ b.date)
    (action : CorporateAction ℚ) :
    (actionFactor bars action).1 = (ratio bars action).map (action.exDate, ·) ∧
    (actionFactor bars action).2.filter AdjustWarning.skips =
      (if (ratio bars action).isNone then [skipWarning bars action] else []) ∧
    ∀ w ∈ (actionFactor bars action).2, w.exDate = action.exDate := by
  have hprevious := previousClose_eq hsorted action.exDate
  rw [actionFactor, ratio, skipWarning, hprevious]
  cases hpoint : partitionPoint (fun b => decide (b.date < action.exDate)) bars with
  | zero => simp [AdjustWarning.skips, AdjustWarning.exDate]
  | succ i =>
    have hi : i < bars.length := by
      have hle := (List.takeWhile_prefix (l := bars) fun b => decide (b.date < action.exDate)).length_le
      rw [partitionPoint] at hpoint
      omega
    simp only [List.getElem?_eq_getElem hi, Option.map_some, Option.bind_some, lit_exact]
    set c := bars[i].close
    by_cases hc : c ≤ 0
    · have hnot : ¬ (0 < c ∧ 0 < action.exPrice c) := fun h => absurd h.1 (not_lt.2 hc)
      simp [hc, hnot, AdjustWarning.skips, AdjustWarning.exDate]
    · obtain ⟨htaken, hpaid, hwarnings⟩ := rights_eq action
      have hquiet : action.rights.2.filter AdjustWarning.skips = [] := by
        refine List.filter_eq_nil_iff.2 fun w hw => ?_
        rw [hwarnings w hw]
        exact Bool.false_ne_true
      have hnamed : ∀ w ∈ action.rights.2, w.exDate = action.exDate := by
        intro w hw
        rw [hwarnings w hw]
        rfl
      have hx : (c - action.cashDiv + action.rights.1.2 * action.rights.1.1) /
          (1 + action.bonusShare + action.rights.1.1) = action.exPrice c := by
        rw [hpaid, htaken, CorporateAction.exPrice]
      rw [if_neg hc]
      by_cases hpos : action.exPrice c ≤ 0
      · have hnot : ¬ (0 < c ∧ 0 < action.exPrice c) := fun h => absurd h.2 (not_lt.2 hpos)
        simp only [hx, if_pos hpos, if_neg hnot, if_neg hc]
        refine ⟨rfl, ?_, fun w hw => ?_⟩
        · rw [List.filter_append, hquiet]
          rfl
        · rcases List.mem_append.1 hw with hw | hw
          · exact hnamed w hw
          · rw [List.mem_singleton.1 hw]
            rfl
      · have hyes : 0 < c ∧ 0 < action.exPrice c := ⟨not_le.1 hc, not_le.1 hpos⟩
        simp only [hx, if_neg hpos, if_pos hyes]
        exact ⟨rfl, hquiet, hnamed⟩

/-! ## The product of the ratios -/

theorem knownActions_perm (actions : List (CorporateAction ℚ)) (anchor : ℤ) (cutoff : Option ℤ) :
    (knownActions actions anchor cutoff).Perm (actions.filter (·.Eligible anchor cutoff)) := by
  refine (List.perm_insertionSort _ _).trans (List.Perm.of_eq ?_)
  rw [List.filter_filter]
  refine List.filter_congr fun a _ => ?_
  cases hcutoff : cutoff with
  | none => simp [CorporateAction.Eligible]
  | some c =>
    cases hnotice : a.noticeDate with
    | none => simp [CorporateAction.Eligible, hnotice]
    | some notice => simp [CorporateAction.Eligible, hnotice, Bool.and_comm]

/-- The product of the ratios of the actions after a date. -/
def ratiosAfter (bars : List (CoreBar ℚ)) (actions : List (CorporateAction ℚ)) (d : ℤ) : ℚ :=
  ((actions.filter (d < ·.exDate)).filterMap (ratio bars)).prod

theorem after_actionFactors (hsorted : bars.Pairwise fun a b => a.date ≤ b.date) (d : ℤ) :
    Dated.after d (actionFactors bars actions anchor cutoff).1 =
      ratiosAfter bars (actions.filter (·.Eligible anchor cutoff)) d := by
  have hlist : ∀ l : List (CorporateAction ℚ),
      ((l.filterMap fun a => (actionFactor bars a).1).filter fun p => d < p.1).map Prod.snd =
        (l.filter (d < ·.exDate)).filterMap (ratio bars) := by
    intro l
    induction l with
    | nil => rfl
    | cons a l ih =>
      rw [List.filterMap_cons, (actionFactor_eq hsorted a).1]
      by_cases hd : d < a.exDate
      · rw [List.filter_cons_of_pos (by simpa using hd), List.filterMap_cons]
        cases ratio bars a with
        | none => exact ih
        | some r =>
          rw [Option.map_some]
          dsimp only
          rw [List.filter_cons_of_pos (by simpa using hd), List.map_cons, ih]
      · rw [List.filter_cons_of_neg (by simpa using hd)]
        cases ratio bars a with
        | none => exact ih
        | some r =>
          rw [Option.map_some]
          dsimp only
          rw [List.filter_cons_of_neg (by simpa using hd), ih]
  rw [Dated.after, actionFactors_fst, hlist, ratiosAfter]
  exact (((knownActions_perm actions anchor cutoff).filter _).filterMap _).prod_eq

/-- **The prices**: each is the raw one times the ratios of the known actions after its date. -/
theorem computeQfq_prices_eq (hsorted : bars.Pairwise fun a b => a.date ≤ b.date) :
    (computeQfq bars actions anchor cutoff).bars.map CoreBar.prices =
      bars.map fun b => b.prices.map
        (· * ratiosAfter bars (actions.filter (·.Eligible anchor cutoff)) b.date) := by
  rw [computeQfq_prices]
  refine List.map_congr_left fun b _ => ?_
  rw [after_actionFactors hsorted]

/-- What adjustment leaves as it is. -/
def CoreBar.untouched (b : CoreBar ℚ) : ℤ × ℚ × VolumeUnit × Option ℚ × Option ℚ :=
  (b.date, b.volume, b.volumeUnit, b.amount, b.turnover)

theorem computeQfq_untouched (bars : List (CoreBar ℚ)) (actions : List (CorporateAction ℚ)) (anchor : ℤ)
    (cutoff : Option ℤ) : (computeQfq bars actions anchor cutoff).bars.map CoreBar.untouched =
      bars.map CoreBar.untouched := by
  have hscale : ∀ (factors : List (ℤ × ℚ)) (bars : List (CoreBar ℚ)) prevFactor prevClose,
      (scaleBars factors prevFactor prevClose bars).map CoreBar.untouched =
        bars.map CoreBar.untouched := by
    intro factors bars
    induction bars with
    | nil => exact fun _ _ => rfl
    | cons b rest ih =>
      intro prevFactor prevClose
      have hbar : ∀ factor prev keep, (scaleBar b factor prev keep).untouched = b.untouched := by
        intro factor prev keep
        cases keep with
        | true => rfl
        | false => rfl
      rw [scaleBars, List.map_cons, List.map_cons, hbar, ih]
  rw [computeQfq]
  dsimp only
  split
  · rfl
  · exact hscale _ bars _ _

/-- Bars are scaled by their factors. -/
theorem scaleBars_congr {factors factors' : List (ℤ × ℚ)} {bars : List (CoreBar ℚ)}
    (h : ∀ b ∈ bars, barFactor factors b = barFactor factors' b) : ∀ prevFactor prevClose,
      scaleBars factors prevFactor prevClose bars = scaleBars factors' prevFactor prevClose bars := by
  induction bars with
  | nil => exact fun _ _ => rfl
  | cons b rest ih =>
    intro prevFactor prevClose
    rw [List.forall_mem_cons] at h
    rw [scaleBars, scaleBars, h.1, ih h.2]

/-- **The order of the actions** does not matter to the bars. -/
theorem computeQfq_perm (hsorted : bars.Pairwise fun a b => a.date ≤ b.date) (hperm : actions.Perm actions') :
    (computeQfq bars actions anchor cutoff).bars = (computeQfq bars actions' anchor cutoff).bars := by
  have hfactor : ∀ b : CoreBar ℚ, barFactor (actionFactors bars actions anchor cutoff).1 b =
      barFactor (actionFactors bars actions' anchor cutoff).1 b := by
    intro b
    rw [barFactor_eq (actionFactors_sorted _ _ _ _), barFactor_eq (actionFactors_sorted _ _ _ _),
      after_actionFactors hsorted, after_actionFactors hsorted]
    exact (((hperm.filter _).filter _).filterMap _).prod_eq
  rw [computeQfq, computeQfq]
  simp only [hfactor]
  split
  · rfl
  · exact scaleBars_congr (fun b _ => hfactor b) _ _

/-! ## Warnings -/

theorem computeQfq_warnings (bars : List (CoreBar ℚ)) (actions : List (CorporateAction ℚ)) (anchor : ℤ)
    (cutoff : Option ℤ) : (computeQfq bars actions anchor cutoff).warnings =
      (knownActions actions anchor cutoff).flatMap fun a => (actionFactor bars a).2 := by
  rw [computeQfq, actionFactors]
  dsimp only
  split
  · rw [List.flatMap_map]
  · rw [List.flatMap_map]

/-- The warnings come in the order of the dates that they name. -/
theorem warnings_sorted (hsorted : bars.Pairwise fun a b => a.date ≤ b.date) :
    (computeQfq bars actions anchor cutoff).warnings.Pairwise fun v w => v.exDate ≤ w.exDate := by
  rw [computeQfq_warnings, List.pairwise_flatMap]
  have hnamed := fun a : CorporateAction ℚ => (actionFactor_eq hsorted a).2.2
  refine ⟨fun a _ => ?_, (sortByKey_pairwise CorporateAction.exDate _).imp ?_⟩
  · refine List.Pairwise.imp_of_mem (fun {v w} hv hw _ => ?_) (List.pairwise_of_forall fun _ _ => trivial)
    rw [hnamed a v hv, hnamed a w hw]
  · intro a b hab v hv w hw
    rw [hnamed a v hv, hnamed b w hw]
    exact hab

theorem warnings_perm (hperm : actions.Perm actions') :
    (computeQfq bars actions anchor cutoff).warnings.Perm
      (computeQfq bars actions' anchor cutoff).warnings := by
  rw [computeQfq_warnings, computeQfq_warnings]
  refine List.Perm.flatMap_right _ ?_
  exact (knownActions_perm actions anchor cutoff).trans
    ((hperm.filter _).trans (knownActions_perm actions' anchor cutoff).symm)

/-- **The actions that are skipped** are the known ones without a ratio, and each is named once. -/
theorem skips_perm (hsorted : bars.Pairwise fun a b => a.date ≤ b.date) :
    ((computeQfq bars actions anchor cutoff).warnings.filter AdjustWarning.skips).Perm
      ((actions.filter fun a => a.Eligible anchor cutoff ∧ ratio bars a = none).map (skipWarning bars)) := by
  have hlist : ∀ l : List (CorporateAction ℚ),
      (l.flatMap fun a => (actionFactor bars a).2).filter AdjustWarning.skips =
        (l.filter fun a => (ratio bars a).isNone).map (skipWarning bars) := by
    intro l
    induction l with
    | nil => rfl
    | cons a l ih =>
      rw [List.flatMap_cons, List.filter_append, (actionFactor_eq hsorted a).2.1, ih]
      by_cases hratio : (ratio bars a).isNone
      · rw [if_pos hratio, List.filter_cons_of_pos (by simpa using hratio), List.map_cons]
        rfl
      · rw [if_neg hratio, List.filter_cons_of_neg (by simpa using hratio)]
        rfl
  rw [computeQfq_warnings, hlist]
  refine (((knownActions_perm actions anchor cutoff).filter _).map _).trans (List.Perm.of_eq ?_)
  rw [List.filter_filter]
  refine congrArg (List.map (skipWarning bars)) (List.filter_congr fun a _ => ?_)
  cases ratio bars a with
  | none => simp
  | some r => simp

/-- **Forward adjustment meets its formula**, in exact arithmetic, over bars in the order of their dates:
the prices are the raw ones times the ratios of the known actions after their dates and nothing else of
the bars changes but the percentage, the bars do not depend on the order of the actions, which only
orders the warnings of one date, and every known action has a ratio or one warning that it was
skipped. -/
theorem qfq_formula (bars : List (CoreBar ℚ)) (hsorted : bars.Pairwise fun a b => a.date ≤ b.date)
    (actions : List (CorporateAction ℚ)) (anchor : ℤ) (cutoff : Option ℤ) :
    (computeQfq bars actions anchor cutoff).bars.map CoreBar.prices = bars.map (fun b => b.prices.map
      (· * ratiosAfter bars (actions.filter (·.Eligible anchor cutoff)) b.date)) ∧
    (computeQfq bars actions anchor cutoff).bars.map CoreBar.untouched = bars.map CoreBar.untouched ∧
    (∀ actions', actions.Perm actions' →
      (computeQfq bars actions anchor cutoff).bars = (computeQfq bars actions' anchor cutoff).bars ∧
      (computeQfq bars actions anchor cutoff).warnings.Perm
        (computeQfq bars actions' anchor cutoff).warnings) ∧
    ((computeQfq bars actions anchor cutoff).warnings.Pairwise fun v w => v.exDate ≤ w.exDate) ∧
    ((computeQfq bars actions anchor cutoff).warnings.filter AdjustWarning.skips).Perm
      ((actions.filter fun a => a.Eligible anchor cutoff ∧ ratio bars a = none).map (skipWarning bars)) ∧
    ∀ a, (skipWarning bars a).exDate = a.exDate := by
  refine ⟨computeQfq_prices_eq hsorted, computeQfq_untouched bars actions anchor cutoff,
    fun actions' hperm => ⟨computeQfq_perm hsorted hperm, warnings_perm hperm⟩,
    warnings_sorted hsorted, skips_perm hsorted, fun a => ?_⟩
  rw [skipWarning]
  split
  · rfl
  · split
    · rfl
    · rfl

theorem qfq_formula_bonus : (computeQfq bonusBars bonusActions 3 none).bars.map CoreBar.prices =
    [⟨55 / 12, 55 / 12, 55 / 12, 55 / 12⟩, ⟨11 / 2, 11 / 2, 11 / 2, 11 / 2⟩] := by
  have hsorted : bonusBars.Pairwise fun a b => a.date ≤ b.date := by simp [bonusBars, CoreBar.new]
  rw [(qfq_formula bonusBars hsorted bonusActions 3 none).1]
  decide +kernel

/-- Rights without a price, and a dividend above the close of the bar before, on one day. -/
def sameDayActions : List (CorporateAction ℚ) :=
  [{ CorporateAction.new 2 0 0 with rightsRatio := 1 }, .new 2 20 0]

/-- The warnings of one day come in the order of the list, and a negative rights ratio without a price
is applied. -/
theorem same_day_swapped :
    (¬ ∀ (bars : List (CoreBar ℚ)) (actions actions' : List (CorporateAction ℚ)),
      actions.Perm actions' → computeQfq bars actions 3 none = computeQfq bars actions' 3 none) ∧
    ¬ ∀ (bars : List (CoreBar ℚ)) (a : CorporateAction ℚ), a.rightsPrice = none →
      ∀ close ∈ previousClose bars a.exDate, 0 < close → ∀ r ∈ ratio bars a,
        r = (close - a.cashDiv) / (1 + a.bonusShare) / close := by
  constructor
  · intro h
    have hperm : sameDayActions.Perm sameDayActions.reverse := (List.reverse_perm _).symm
    have heq := congrArg Adjusted.warnings (h bonusBars _ _ hperm)
    revert heq
    decide +kernel
  · intro h
    have hratio := h bonusBars { CorporateAction.new 2 0 0 with rightsRatio := -1 / 2 } rfl 10
      (by decide +kernel) (by decide) 2 (by decide +kernel)
    revert hratio
    decide +kernel

end Astock
