import Astock.Spec.DriverTree

/-!
# When forecast ranges are ordered

The bear case has the lowest growth and margins and the highest expenses, the bull case the reverse. What a
case makes of them is a product with the revenue, which turns around where a margin is negative.

* `rangeAssumption_le`: the low, base and high value of an assumption are in order.
* `scenarioInputs_worse`: the cases differ in growth, margin and expenses, and are in order there.
* `parentNetProfit_le_iff`: taxes and minorities keep the order of the operating profits.
* `forecast_ranges_iff`: **the forecast ranges are ordered** exactly if between neighbouring cases no loss
  grows with the revenue.
-/

namespace Astock.DriverTree

variable {bundle : FundamentalBundle} {worse better bear base bull : ScenarioInputs} {q q' : ℚ}
  {values observed : List ℚ} {fallback : ℚ × ℚ × ℚ} {range : ℚ × ℚ}

/-! ## Assumptions -/

theorem clamp_mono (range : ℚ × ℚ) {x y : ℚ} (h : x ≤ y) : clamp range x ≤ clamp range y :=
  max_le_max_left _ (min_le_min_right _ h)

theorem le_clamp (range : ℚ × ℚ) (x : ℚ) : range.1 ≤ clamp range x := le_max_left _ _

theorem clamp_le {x : ℚ} (h : range.1 ≤ range.2) : clamp range x ≤ range.2 :=
  max_le h (min_le_right _ _)

theorem round_mono {x y : ℚ} (h : x ≤ y) : round x ≤ round y := by
  rw [round_eq, round_eq]
  exact Int.floor_le_floor (by linarith)

theorem quantileIndex_mono (n : ℕ) (h : q ≤ q') : quantileIndex n q ≤ quantileIndex n q' := by
  unfold quantileIndex
  refine Int.toNat_le_toNat (round_mono ?_)
  exact mul_le_mul_of_nonneg_left (clamp_mono _ h) (Nat.cast_nonneg _)

theorem quantileIndex_lt {n : ℕ} (hn : 0 < n) (q : ℚ) : quantileIndex n q < n := by
  have hclamp : clamp (0, 1) q ≤ 1 := clamp_le zero_le_one
  have hproduct : ((n - 1 : ℕ) : ℚ) * clamp (0, 1) q ≤ ((n - 1 : ℕ) : ℤ) := by
    rw [Int.cast_natCast]
    exact mul_le_of_le_one_right (Nat.cast_nonneg _) hclamp
  have hround := round_mono hproduct
  rw [round_intCast] at hround
  unfold quantileIndex
  omega

/-- Quantiles of what was observed are there. -/
theorem exists_quantile (hvalues : values ≠ []) (q : ℚ) : ∃ h : quantileIndex values.length q <
    (values.insertionSort (· ≤ ·)).length,
      quantile values q = some (values.insertionSort (· ≤ ·))[quantileIndex values.length q] := by
  have hlt : quantileIndex values.length q < (values.insertionSort (· ≤ ·)).length := by
    rw [List.length_insertionSort]
    exact quantileIndex_lt (List.length_pos_iff.2 hvalues) q
  refine ⟨hlt, ?_⟩
  unfold quantile
  rw [if_neg (by simpa using hvalues)]
  exact List.getElem?_eq_getElem hlt

/-- **Quantiles are in order.** -/
theorem quantile_mono (hvalues : values ≠ []) (h : q ≤ q') :
    (quantile values q).getD 0 ≤ (quantile values q').getD 0 := by
  obtain ⟨hlt, heq⟩ := exists_quantile hvalues q
  obtain ⟨hlt', heq'⟩ := exists_quantile hvalues q'
  rw [heq, heq', Option.getD_some, Option.getD_some]
  have hsorted : (values.insertionSort (· ≤ ·)).Pairwise (· ≤ ·) := List.pairwise_insertionSort _ _
  rcases Nat.eq_or_lt_of_le (quantileIndex_mono values.length h) with hindex | hindex
  · simp only [hindex, le_refl]
  · exact List.pairwise_iff_getElem.1 hsorted _ _ hlt hlt' hindex

/-- The three values are in order. -/
def InOrder (values : ℚ × ℚ × ℚ) : Prop := values.1 ≤ values.2.1 ∧ values.2.1 ≤ values.2.2

theorem rangeOf_inOrder (h : InOrder fallback) (observed : List ℚ) : InOrder (rangeOf observed fallback) := by
  unfold rangeOf
  split
  · exact h
  · exact ⟨by norm_num, by norm_num⟩
  · next hempty hsingle =>
    have hne : observed ≠ [] := fun h => hempty h
    exact ⟨quantile_mono hne (by norm_num), quantile_mono hne (by norm_num)⟩

theorem growth_inOrder (template : IndustryTemplate) : InOrder template.priorGrowthRange := by
  cases template <;> exact ⟨by norm_num [IndustryTemplate.priorGrowthRange],
    by norm_num [IndustryTemplate.priorGrowthRange]⟩

theorem gross_inOrder (template : IndustryTemplate) : InOrder template.grossFallback := by
  cases template <;> exact ⟨by norm_num [IndustryTemplate.grossFallback],
    by norm_num [IndustryTemplate.grossFallback]⟩

theorem opex_inOrder (template : IndustryTemplate) : InOrder template.opexFallback := by
  cases template <;> exact ⟨by norm_num [IndustryTemplate.opexFallback],
    by norm_num [IndustryTemplate.opexFallback]⟩

/-! ## Cases -/

/-- One case is assumed to be worse than the other: only growth, gross margin and expenses differ. -/
structure Worse (worse better : ScenarioInputs) : Prop where
  revenue : worse.revenue = better.revenue
  taxRate : worse.taxRate = better.taxRate
  minorityRatio : worse.minorityRatio = better.minorityRatio
  cfoMargin : worse.cfoMargin = better.cfoMargin
  capexRatio : worse.capexRatio = better.capexRatio
  shares : worse.shares = better.shares
  growth_low : -4 / 5 ≤ worse.growth
  growth : worse.growth ≤ better.growth
  grossMargin : worse.grossMargin ≤ better.grossMargin
  opexRatio : better.opexRatio ≤ worse.opexRatio
  taxRate_le : better.taxRate ≤ 3 / 5
  minorityRatio_le : better.minorityRatio ≤ 4 / 5
  capexRatio_nonneg : 0 ≤ better.capexRatio

/-- The case with given values of growth, gross margin and expenses. -/
def caseOf (bundle : FundamentalBundle) (revenue growth gross opex : ℚ) : ScenarioInputs where
  revenue := revenue
  growth := clamp (-4 / 5, 3 / 2) growth
  grossMargin := clamp (-1 / 2, 19 / 20) gross
  opexRatio := clamp (-1 / 5, 3 / 2) opex
  taxRate := bundle.taxRate
  minorityRatio := bundle.minorityRatio
  cfoMargin := bundle.cfoMargin
  capexRatio := bundle.capexRatio
  shares := bundle.shares

theorem scenarioInputs_eq (bundle : FundamentalBundle) : scenarioInputs (parametersOf bundle) =
    bundle.revenue.map fun revenue =>
      let growth := rangeOf (historicalGrowth bundle) bundle.template.priorGrowthRange
      let gross := rangeOf bundle.grossHistory bundle.template.grossFallback
      let opex := rangeOf bundle.opexHistory bundle.template.opexFallback
      (caseOf bundle revenue growth.1 gross.1 opex.2.2, caseOf bundle revenue growth.2.1 gross.2.1 opex.2.1,
        caseOf bundle revenue growth.2.2 gross.2.2 opex.1) := by
  have hrevenue : pValue (parametersOf bundle) .baseRevenue = bundle.revenue := rfl
  unfold scenarioInputs
  rw [hrevenue]
  cases bundle.revenue with
  | none => rfl
  | some revenue => rfl

theorem worse_caseOf (bundle : FundamentalBundle) (revenue : ℚ) {growth growth' gross gross' opex opex' : ℚ}
    (hgrowth : growth ≤ growth') (hgross : gross ≤ gross') (hopex : opex' ≤ opex) :
    Worse (caseOf bundle revenue growth gross opex) (caseOf bundle revenue growth' gross' opex') where
  revenue := rfl
  taxRate := rfl
  minorityRatio := rfl
  cfoMargin := rfl
  capexRatio := rfl
  shares := rfl
  growth_low := le_clamp _ _
  growth := clamp_mono _ hgrowth
  grossMargin := clamp_mono _ hgross
  opexRatio := clamp_mono _ hopex
  taxRate_le := clamp_le (by norm_num)
  minorityRatio_le := clamp_le (by norm_num)
  capexRatio_nonneg := le_clamp (0, 2) _

/-- **The cases** of a company are in order. -/
theorem scenarioInputs_worse (h : scenarioInputs (parametersOf bundle) = some (bear, base, bull)) :
    Worse bear base ∧ Worse base bull ∧ bundle.revenue = some base.revenue := by
  rw [scenarioInputs_eq] at h
  obtain ⟨revenue, hrevenue, hcases⟩ := Option.map_eq_some_iff.1 h
  have hgrowth := rangeOf_inOrder (growth_inOrder bundle.template) (historicalGrowth bundle)
  have hgross := rangeOf_inOrder (gross_inOrder bundle.template) bundle.grossHistory
  have hopex := rangeOf_inOrder (opex_inOrder bundle.template) bundle.opexHistory
  simp only [Prod.mk.injEq] at hcases
  obtain ⟨rfl, rfl, rfl⟩ := hcases
  exact ⟨worse_caseOf bundle revenue hgrowth.1 hgross.1 hopex.2,
    worse_caseOf bundle revenue hgrowth.2 hgross.2 hopex.1, hrevenue⟩

/-! ## Forecasts of two cases -/

/-- What a case makes of a margin. -/
theorem product_le_iff {revenue growth growth' margin margin' : ℚ} (hrevenue : 0 < revenue)
    (hlow : -4 / 5 ≤ growth) (hgrowth : growth ≤ growth') (hmargin : margin ≤ margin') :
    revenue * (1 + growth) * margin ≤ revenue * (1 + growth') * margin' ↔
      0 ≤ margin' ∨ (1 + growth') * -margin' ≤ (1 + growth) * -margin := by
  rw [mul_assoc, mul_assoc, mul_le_mul_iff_right₀ hrevenue]
  have hpos : 0 < 1 + growth := by linarith
  constructor
  · intro h
    refine .inr ?_
    linarith
  · rintro (hnonneg | h)
    · calc (1 + growth) * margin ≤ (1 + growth) * margin' := mul_le_mul_of_nonneg_left hmargin hpos.le
        _ ≤ (1 + growth') * margin' := mul_le_mul_of_nonneg_right (by linarith) hnonneg
    · linarith

/-- What a case makes of a margin that the cases share. -/
theorem product_same_le_iff {revenue growth growth' margin : ℚ} (hrevenue : 0 < revenue)
    (hgrowth : growth ≤ growth') :
    revenue * (1 + growth) * margin ≤ revenue * (1 + growth') * margin ↔ 0 ≤ margin ∨ growth = growth' := by
  rcases hgrowth.eq_or_lt with rfl | hlt
  · simp
  · have hproduct : revenue * (1 + growth) < revenue * (1 + growth') :=
      mul_lt_mul_of_pos_left (by linarith) hrevenue
    constructor
    · intro h
      refine .inl ?_
      by_contra hneg
      exact absurd h (not_le.2 (mul_lt_mul_of_neg_right hproduct (not_le.1 hneg)))
    · rintro (h | h)
      · exact mul_le_mul_of_nonneg_right hproduct.le h
      · exact absurd h hlt.ne

/-- The parent profit of an operating profit. -/
def parentOf (taxRate minorityRatio operating : ℚ) : ℚ :=
  let net := operating - max operating 0 * taxRate
  net - max net 0 * minorityRatio

theorem parentOf_strictMono {taxRate minorityRatio : ℚ} (htax : taxRate ≤ 3 / 5)
    (hminority : minorityRatio ≤ 4 / 5) : StrictMono (parentOf taxRate minorityRatio) := by
  -- both parts keep what is below zero and a positive share of what is above
  have hshare : ∀ {ratio : ℚ}, ratio ≤ 4 / 5 → StrictMono fun x : ℚ => x - max x 0 * ratio := by
    intro ratio hratio x y hxy
    dsimp only
    rcases le_total x 0 with hx | hx <;> rcases le_total y 0 with hy | hy
    · rw [max_eq_right hx, max_eq_right hy]
      linarith
    · rw [max_eq_right hx, max_eq_left hy]
      nlinarith
    · linarith
    · rw [max_eq_left hx, max_eq_left hy]
      nlinarith
  have htax' : taxRate ≤ 4 / 5 := by linarith
  exact (hshare hminority).comp (hshare htax')

theorem parentNetProfit_eq (inputs : ScenarioInputs) : (computeScenario inputs).parentNetProfit =
    parentOf inputs.taxRate inputs.minorityRatio (computeScenario inputs).operatingProfit := rfl

theorem operatingProfit_eq (inputs : ScenarioInputs) : (computeScenario inputs).operatingProfit =
    inputs.revenue * (1 + inputs.growth) * (inputs.grossMargin - inputs.opexRatio) :=
  (mul_sub _ _ _).symm

theorem freeCashFlow_eq (inputs : ScenarioInputs) : (computeScenario inputs).freeCashFlow =
    inputs.revenue * (1 + inputs.growth) * (inputs.cfoMargin - inputs.capexRatio) :=
  (mul_sub _ _ _).symm

/-- **Taxes and minorities** keep the order of the operating profits. -/
theorem parentNetProfit_le_iff (h : Worse worse better) :
    (computeScenario worse).parentNetProfit ≤ (computeScenario better).parentNetProfit ↔
      (computeScenario worse).operatingProfit ≤ (computeScenario better).operatingProfit := by
  rw [parentNetProfit_eq, parentNetProfit_eq, h.taxRate, h.minorityRatio]
  exact (parentOf_strictMono h.taxRate_le h.minorityRatio_le).le_iff_le

/-- Between two cases no loss grows with the revenue: the better case has no negative gross or operating
margin, or the worse one loses as much, and the free cash flow is not negative unless they grow alike. -/
structure Kept (worse better : ScenarioInputs) : Prop where
  gross : 0 ≤ better.grossMargin ∨
    (1 + better.growth) * -better.grossMargin ≤ (1 + worse.growth) * -worse.grossMargin
  operating : 0 ≤ better.grossMargin - better.opexRatio ∨
    (1 + better.growth) * -(better.grossMargin - better.opexRatio) ≤
      (1 + worse.growth) * -(worse.grossMargin - worse.opexRatio)
  cash : 0 ≤ better.cfoMargin - better.capexRatio ∨ worse.growth = better.growth

/-- All forecasts of the worse case are at most those of the better. -/
structure NeverBetter (worse better : ScenarioFinancials) : Prop where
  revenue : worse.revenue ≤ better.revenue
  grossProfit : worse.grossProfit ≤ better.grossProfit
  operatingProfit : worse.operatingProfit ≤ better.operatingProfit
  parentNetProfit : worse.parentNetProfit ≤ better.parentNetProfit
  eps : ∀ x y, worse.eps = some x → better.eps = some y → x ≤ y
  operatingCashFlow : worse.operatingCashFlow ≤ better.operatingCashFlow
  freeCashFlow : worse.freeCashFlow ≤ better.freeCashFlow

theorem eps_le (h : Worse worse better)
    (hparent : (computeScenario worse).parentNetProfit ≤ (computeScenario better).parentNetProfit) :
    ∀ x y, (computeScenario worse).eps = some x → (computeScenario better).eps = some y → x ≤ y := by
  intro x y hx hy
  obtain ⟨shares, hshares, rfl⟩ := Option.map_eq_some_iff.1 hx
  obtain ⟨shares', hshares', rfl⟩ := Option.map_eq_some_iff.1 hy
  rw [h.shares] at hshares
  obtain rfl : shares = shares' := Option.some_injective _ (hshares.symm.trans hshares')
  have hpos : 0 < shares := of_decide_eq_true (Option.filter_eq_some_iff.1 hshares).2
  exact div_le_div_of_nonneg_right hparent hpos.le

/-- **Two cases are in order** exactly if no loss grows. -/
theorem neverBetter_iff (h : Worse worse better) (hrevenue : 0 < better.revenue) :
    NeverBetter (computeScenario worse) (computeScenario better) ↔ Kept worse better := by
  have hgross : (computeScenario worse).grossProfit ≤ (computeScenario better).grossProfit ↔
      0 ≤ better.grossMargin ∨
        (1 + better.growth) * -better.grossMargin ≤ (1 + worse.growth) * -worse.grossMargin := by
    show worse.revenue * (1 + worse.growth) * worse.grossMargin ≤ _ ↔ _
    rw [h.revenue]
    exact product_le_iff hrevenue h.growth_low h.growth h.grossMargin
  have hoperating : (computeScenario worse).operatingProfit ≤ (computeScenario better).operatingProfit ↔
      0 ≤ better.grossMargin - better.opexRatio ∨
        (1 + better.growth) * -(better.grossMargin - better.opexRatio) ≤
          (1 + worse.growth) * -(worse.grossMargin - worse.opexRatio) := by
    rw [operatingProfit_eq, operatingProfit_eq, h.revenue]
    exact product_le_iff hrevenue h.growth_low h.growth (sub_le_sub h.grossMargin h.opexRatio)
  have hfree : (computeScenario worse).freeCashFlow ≤ (computeScenario better).freeCashFlow ↔
      0 ≤ better.cfoMargin - better.capexRatio ∨ worse.growth = better.growth := by
    rw [freeCashFlow_eq, freeCashFlow_eq, h.revenue, h.cfoMargin, h.capexRatio]
    exact product_same_le_iff hrevenue h.growth
  have hcash : (computeScenario worse).operatingCashFlow ≤ (computeScenario better).operatingCashFlow ↔
      0 ≤ better.cfoMargin ∨ worse.growth = better.growth := by
    show worse.revenue * (1 + worse.growth) * worse.cfoMargin ≤ _ ↔ _
    rw [h.revenue, h.cfoMargin]
    exact product_same_le_iff hrevenue h.growth
  constructor
  · intro hnever
    exact ⟨hgross.1 hnever.grossProfit, hoperating.1 hnever.operatingProfit, hfree.1 hnever.freeCashFlow⟩
  · intro hkept
    have hparent := (parentNetProfit_le_iff h).2 (hoperating.2 hkept.operating)
    constructor
    case revenue =>
      show worse.revenue * (1 + worse.growth) ≤ better.revenue * (1 + better.growth)
      rw [h.revenue]
      exact mul_le_mul_of_nonneg_left (by linarith [h.growth]) hrevenue.le
    case grossProfit => exact hgross.2 hkept.gross
    case operatingProfit => exact hoperating.2 hkept.operating
    case parentNetProfit => exact hparent
    case eps => exact eps_le h hparent
    case operatingCashFlow =>
      refine hcash.2 (hkept.cash.imp_left fun hcash => ?_)
      linarith [h.capexRatio_nonneg]
    case freeCashFlow => exact hfree.2 hkept.cash

/-! ## Formula nodes -/

/-- The forecasts of a node are in order. -/
def FormulaNode.Ordered (node : FormulaNode) : Prop :=
  ∀ low middle high, node.forecastLow = some low → node.forecastBase = some middle →
    node.forecastHigh = some high → low ≤ middle ∧ middle ≤ high

theorem ordered_some {id : String} {historical : Option ℚ} {low middle high : ℚ} :
    FormulaNode.Ordered ⟨id, historical, some low, some middle, some high⟩ ↔ low ≤ middle ∧ middle ≤ high := by
  constructor
  · intro h
    exact h low middle high rfl rfl rfl
  · rintro h _ _ _ ⟨⟩ ⟨⟩ ⟨⟩
    exact h

/-- The nodes of three cases are ordered exactly if neighbouring cases are. -/
theorem nodes_ordered_iff (parameters : List DriverParameter) {bear base bull : ScenarioFinancials}
    (hbear : bear.eps.isSome = base.eps.isSome) (hbull : base.eps.isSome = bull.eps.isSome) :
    (∀ node ∈ formulaNodes parameters [bear, base, bull], node.Ordered) ↔
      NeverBetter bear base ∧ NeverBetter base bull := by
  have heps : FormulaNode.Ordered ⟨"forecast_eps", none, bear.eps, base.eps, bull.eps⟩ ↔
      (∀ x y, bear.eps = some x → base.eps = some y → x ≤ y) ∧
        ∀ x y, base.eps = some x → bull.eps = some y → x ≤ y := by
    cases hb : base.eps with
    | none =>
      refine iff_of_true (fun _ _ _ _ h _ => absurd h (by simp)) ⟨fun _ _ _ h => absurd h (by simp),
        fun _ _ h => absurd h (by simp)⟩
    | some b =>
      rw [hb] at hbear hbull
      obtain ⟨x, hx⟩ := Option.isSome_iff_exists.1 hbear
      obtain ⟨y, hy⟩ := Option.isSome_iff_exists.1 hbull.symm
      rw [hx, hy, ordered_some]
      simp
  constructor
  · intro h
    unfold formulaNodes at h
    simp only [List.forall_mem_cons] at h
    obtain ⟨hrevenue, hgross, hoperating, hparent, hnode, hcash, hfree, -⟩ := h
    obtain ⟨hrevenue, hrevenue'⟩ := ordered_some.1 hrevenue
    obtain ⟨hgross, hgross'⟩ := ordered_some.1 hgross
    obtain ⟨hoperating, hoperating'⟩ := ordered_some.1 hoperating
    obtain ⟨hparent, hparent'⟩ := ordered_some.1 hparent
    obtain ⟨hnode, hnode'⟩ := heps.1 hnode
    obtain ⟨hcash, hcash'⟩ := ordered_some.1 hcash
    obtain ⟨hfree, hfree'⟩ := ordered_some.1 hfree
    exact ⟨⟨hrevenue, hgross, hoperating, hparent, hnode, hcash, hfree⟩,
      ⟨hrevenue', hgross', hoperating', hparent', hnode', hcash', hfree'⟩⟩
  · rintro ⟨h, h'⟩
    unfold formulaNodes
    simp only [List.forall_mem_cons]
    exact ⟨ordered_some.2 ⟨h.revenue, h'.revenue⟩, ordered_some.2 ⟨h.grossProfit, h'.grossProfit⟩,
      ordered_some.2 ⟨h.operatingProfit, h'.operatingProfit⟩,
      ordered_some.2 ⟨h.parentNetProfit, h'.parentNetProfit⟩, heps.2 ⟨h.eps, h'.eps⟩,
      ordered_some.2 ⟨h.operatingCashFlow, h'.operatingCashFlow⟩,
      ordered_some.2 ⟨h.freeCashFlow, h'.freeCashFlow⟩, fun _ hnil => absurd hnil List.not_mem_nil⟩

theorem eps_isSome (h : Worse worse better) :
    (computeScenario worse).eps.isSome = (computeScenario better).eps.isSome := by
  unfold computeScenario
  rw [h.shares, Option.isSome_map, Option.isSome_map]

/-- **The forecast ranges are ordered** exactly if no loss grows from the bear to the base or from the base to
the bull case. -/
theorem forecast_ranges_iff (bundle : FundamentalBundle)
    (hrevenue : ∀ revenue, bundle.revenue = some revenue → 0 < revenue) :
    (∀ node ∈ buildEarningsDriverTree bundle, node.Ordered) ↔
      ∀ bear base bull, scenarioInputs (parametersOf bundle) = some (bear, base, bull) →
        Kept bear base ∧ Kept base bull := by
  unfold buildEarningsDriverTree scenariosFrom
  dsimp only
  cases hinputs : scenarioInputs (parametersOf bundle) with
  | none =>
    refine iff_of_true (fun node hnode => ?_) fun _ _ _ h => absurd h (by simp)
    -- without scenarios a node has no forecasts
    intro low middle high hlow
    unfold formulaNodes at hnode
    simp only [List.mem_cons, List.not_mem_nil, or_false] at hnode
    rcases hnode with rfl | rfl | rfl | rfl | rfl | rfl | rfl <;> exact absurd hlow (by simp)
  | some cases =>
    obtain ⟨bear, base, bull⟩ := cases
    obtain ⟨hbear, hbull, hbase⟩ := scenarioInputs_worse hinputs
    have hpos := hrevenue _ hbase
    rw [nodes_ordered_iff _ (eps_isSome hbear) (eps_isSome hbull), neverBetter_iff hbear hpos,
      neverBetter_iff hbull (hbull.revenue ▸ hpos)]
    constructor
    · rintro h _ _ _ ⟨⟩
      exact h
    · intro h
      exact h bear base bull rfl

/-- One annual statement with a revenue of 100 and a given cost. -/
def oneYear (cost : ℚ) : FundamentalBundle where
  template := .generic
  income :=
    [{ reportType := some .annual
       totalOperatingRevenue := some 100
       operatingRevenue := some 100
       operatingCost := some cost
       sellingExpense := some 10
       adminExpense := none
       rdExpense := none
       financeExpense := none
       operatingProfit := none
       totalProfit := none
       incomeTax := none
       netProfit := none
       netProfitParent := none
       minorityProfit := none }]
  balance := []
  cashflow := []
  profileShares := some 10
  snapshotShares := none

theorem oneYear_revenue (cost : ℚ) : ∀ revenue, (oneYear cost).revenue = some revenue → 0 < revenue := by
  rintro _ ⟨⟩
  norm_num

theorem profitable_ranges_ordered : (∀ revenue, (oneYear 60).revenue = some revenue → 0 < revenue) ∧
    ∀ node ∈ buildEarningsDriverTree (oneYear 60), node.Ordered := by
  refine ⟨oneYear_revenue 60, (forecast_ranges_iff (oneYear 60) (oneYear_revenue 60)).2 ?_⟩
  intro bear base bull h
  rw [scenarioInputs_eq] at h
  obtain ⟨_, ⟨⟩, hcases⟩ := Option.map_eq_some_iff.1 h
  simp only [Prod.mk.injEq] at hcases
  obtain ⟨rfl, rfl, rfl⟩ := hcases
  exact ⟨⟨.inl (by decide +kernel), .inl (by decide +kernel), .inl (by decide +kernel)⟩,
    ⟨.inl (by decide +kernel), .inl (by decide +kernel), .inl (by decide +kernel)⟩⟩

/-- Where the costs exceed the revenue, the bull case has the greatest gross loss. -/
theorem losses_turn_ranges_around : ¬ ∀ bundle : FundamentalBundle,
    (∀ revenue, bundle.revenue = some revenue → 0 < revenue) →
      ∀ node ∈ buildEarningsDriverTree bundle, node.Ordered := by
  intro h
  have hkept := (forecast_ranges_iff (oneYear 140) (oneYear_revenue 140)).1
    (h (oneYear 140) (oneYear_revenue 140))
  have hinputs := scenarioInputs_eq (oneYear 140)
  have hgross := (hkept _ _ _ hinputs).1.gross
  exact absurd hgross (by decide +kernel)

end Astock.DriverTree
