import Mathlib.Algebra.Order.Round
import Mathlib.Data.List.Sort
import Mathlib.Tactic

/-!
# The earnings driver tree

`crates/fundamental/src/driver_tree.rs`: the parameters that are read off the statements of a company, the
scenarios made of them and the forecasts of the formula nodes, in exact arithmetic. Names, units, evidence
and notes are left out, and the industry template is given.
-/

namespace Astock.DriverTree

inductive IndustryTemplate
  | financial
  | realEstate
  | resource
  | manufacturing
  | consumer
  | software
  | generic
  deriving DecidableEq, Repr

inductive ReportType
  | q1
  | h1
  | q3
  | annual
  deriving DecidableEq, Repr

structure IncomeStatement where
  reportType : Option ReportType
  totalOperatingRevenue : Option ℚ
  operatingRevenue : Option ℚ
  operatingCost : Option ℚ
  sellingExpense : Option ℚ
  adminExpense : Option ℚ
  rdExpense : Option ℚ
  financeExpense : Option ℚ
  operatingProfit : Option ℚ
  totalProfit : Option ℚ
  incomeTax : Option ℚ
  netProfit : Option ℚ
  netProfitParent : Option ℚ
  minorityProfit : Option ℚ

structure BalanceSheet where
  reportType : Option ReportType
  inventory : Option ℚ
  notesAndAccountsReceivable : Option ℚ
  accountsReceivable : Option ℚ
  notesAndAccountsPayable : Option ℚ
  accountsPayable : Option ℚ
  shareCapital : Option ℚ

structure CashFlowStatement where
  reportType : Option ReportType
  netCfo : Option ℚ
  capex : Option ℚ
  depreciation : Option ℚ

/-- The statements, oldest first, and the share counts of the profile and of the valuation snapshot. -/
structure FundamentalBundle where
  template : IndustryTemplate
  income : List IncomeStatement
  balance : List BalanceSheet
  cashflow : List CashFlowStatement
  profileShares : Option ℚ
  snapshotShares : Option ℚ

/-! ## Histories -/

def annualIncome (bundle : FundamentalBundle) : List IncomeStatement :=
  bundle.income.filter (·.reportType = some .annual)

def latestAnnualBalance (bundle : FundamentalBundle) : Option BalanceSheet :=
  bundle.balance.reverse.find? (·.reportType = some .annual)

def latestAnnualCashflow (bundle : FundamentalBundle) : Option CashFlowStatement :=
  bundle.cashflow.reverse.find? (·.reportType = some .annual)

/-- `f64::EPSILON`. -/
def epsilon : ℚ := 1 / 2 ^ 52

def div (num den : Option ℚ) : Option ℚ :=
  match num, den with
  | some num, some den => if epsilon < |den| then some (num / den) else none
  | _, _ => none

/-- `metrics::gross_margin`. -/
def grossMargin (revenue cost : Option ℚ) : Option ℚ :=
  match revenue, cost with
  | some r, some c => if r ≤ 0 then none else some ((r - c) / r)
  | _, _ => none

/-- `x.clamp(low, high)`. -/
def clamp (range : ℚ × ℚ) (x : ℚ) : ℚ := max range.1 (min x range.2)

/-- The index that `quantile` reads, of `n` values. -/
def quantileIndex (n : ℕ) (q : ℚ) : ℕ := (round (((n - 1 : ℕ) : ℚ) * clamp (0, 1) q)).toNat

def quantile (values : List ℚ) (q : ℚ) : Option ℚ :=
  if values.isEmpty then none else (values.insertionSort (· ≤ ·))[quantileIndex values.length q]?

def historicalGrowth (bundle : FundamentalBundle) : List ℚ :=
  let annual := annualIncome bundle
  ((annual.zip annual.tail).filterMap fun pair =>
    (div pair.2.totalOperatingRevenue pair.1.totalOperatingRevenue).map (· - 1)).filter
      fun g => -4 / 5 ≤ g ∧ g ≤ 3

def ratioHistory (bundle : FundamentalBundle) (f : IncomeStatement → Option ℚ) : List ℚ :=
  (annualIncome bundle).filterMap f

/-- The period expenses, if any of them is disclosed. -/
def IncomeStatement.opex (row : IncomeStatement) : Option ℚ :=
  let values := [row.sellingExpense, row.adminExpense, row.rdExpense, row.financeExpense]
  if values.all Option.isNone then none else some (values.filterMap id).sum

/-! ## Parameters -/

inductive ParameterId
  | baseRevenue
  | baseCost
  | baseOpex
  | baseOperatingProfit
  | baseParentProfit
  | baseCfo
  | baseCapex
  | baseDepreciation
  | inventory
  | receivables
  | payables
  | shares
  | revenueGrowth
  | grossMargin
  | opexRatio
  | taxRate
  | minorityRatio
  | cfoMargin
  | capexRatio
  deriving DecidableEq, Repr

structure DriverParameter where
  id : ParameterId
  value : Option ℚ
  low : Option ℚ
  high : Option ℚ

def factParam (id : ParameterId) (value : Option ℚ) : DriverParameter := ⟨id, value, value, value⟩

def assumptionParam (id : ParameterId) (value low high : ℚ) : DriverParameter :=
  ⟨id, some value, some low, some high⟩

/-- The low, base and high value of an assumption before they are clamped. -/
def rangeOf (observed : List ℚ) (fallback : ℚ × ℚ × ℚ) : ℚ × ℚ × ℚ :=
  match observed with
  | [] => fallback
  | [value] => (value - 3 / 100, value, value + 3 / 100)
  | _ => ((quantile observed (1 / 5)).getD 0, (quantile observed (1 / 2)).getD 0,
      (quantile observed (4 / 5)).getD 0)

def rangeAssumption (id : ParameterId) (observed : List ℚ) (fallback : ℚ × ℚ × ℚ) (range : ℚ × ℚ) :
    DriverParameter :=
  let values := rangeOf observed fallback
  assumptionParam id (clamp range values.2.1) (clamp range values.1) (clamp range values.2.2)

namespace IndustryTemplate

def priorGrowthRange : IndustryTemplate → ℚ × ℚ × ℚ
  | financial => (-8 / 100, 4 / 100, 15 / 100)
  | realEstate => (-25 / 100, -3 / 100, 18 / 100)
  | resource => (-30 / 100, 0, 30 / 100)
  | manufacturing => (-12 / 100, 6 / 100, 22 / 100)
  | consumer => (-8 / 100, 7 / 100, 18 / 100)
  | software => (-5 / 100, 15 / 100, 35 / 100)
  | generic => (-12 / 100, 5 / 100, 20 / 100)

def grossFallback : IndustryTemplate → ℚ × ℚ × ℚ
  | software => (40 / 100, 60 / 100, 80 / 100)
  | consumer => (20 / 100, 38 / 100, 60 / 100)
  | financial => (20 / 100, 35 / 100, 55 / 100)
  | _ => (10 / 100, 25 / 100, 45 / 100)

def opexFallback : IndustryTemplate → ℚ × ℚ × ℚ
  | software => (25 / 100, 40 / 100, 60 / 100)
  | consumer => (10 / 100, 20 / 100, 35 / 100)
  | _ => (8 / 100, 18 / 100, 35 / 100)

end IndustryTemplate

/-- The statements that `build_earnings_driver_tree` reads. -/
def FundamentalBundle.latestIncome (bundle : FundamentalBundle) : Option IncomeStatement :=
  (annualIncome bundle).getLast?.or bundle.income.getLast?

def FundamentalBundle.latestBalance (bundle : FundamentalBundle) : Option BalanceSheet :=
  (latestAnnualBalance bundle).or bundle.balance.getLast?

def FundamentalBundle.latestCashflow (bundle : FundamentalBundle) : Option CashFlowStatement :=
  (latestAnnualCashflow bundle).or bundle.cashflow.getLast?

def FundamentalBundle.revenue (bundle : FundamentalBundle) : Option ℚ :=
  bundle.latestIncome.bind fun row => row.totalOperatingRevenue.or row.operatingRevenue

def FundamentalBundle.grossHistory (bundle : FundamentalBundle) : List ℚ :=
  ratioHistory bundle fun row =>
    grossMargin (row.operatingRevenue.or row.totalOperatingRevenue) row.operatingCost

def FundamentalBundle.opexHistory (bundle : FundamentalBundle) : List ℚ :=
  ratioHistory bundle fun row =>
    row.opex.bind fun sum => div (some sum) (row.totalOperatingRevenue.or row.operatingRevenue)

def FundamentalBundle.taxRate (bundle : FundamentalBundle) : ℚ :=
  clamp (0, 3 / 5) ((bundle.latestIncome.bind fun row => div row.incomeTax row.totalProfit).getD (1 / 4))

def FundamentalBundle.minorityRatio (bundle : FundamentalBundle) : ℚ :=
  clamp (-1 / 2, 4 / 5) ((bundle.latestIncome.bind fun row => div row.minorityProfit row.netProfit).getD 0)

def FundamentalBundle.cfoMargin (bundle : FundamentalBundle) : ℚ :=
  clamp (-1, 2) ((bundle.latestCashflow.bind fun row => div row.netCfo bundle.revenue).getD 0)

def FundamentalBundle.capexRatio (bundle : FundamentalBundle) : ℚ :=
  clamp (0, 2) ((bundle.latestCashflow.bind fun row => div row.capex bundle.revenue).getD 0)

def FundamentalBundle.shares (bundle : FundamentalBundle) : Option ℚ :=
  (bundle.snapshotShares.or bundle.profileShares).or (bundle.latestBalance.bind (·.shareCapital))

/-- The parameters of `build_earnings_driver_tree`. -/
def parametersOf (bundle : FundamentalBundle) : List DriverParameter :=
  let income := bundle.latestIncome
  let balance := bundle.latestBalance
  let cashflow := bundle.latestCashflow
  let taxRate := bundle.taxRate
  let minorityRatio := bundle.minorityRatio
  let cfoMargin := bundle.cfoMargin
  let capexRatio := bundle.capexRatio
  [ factParam .baseRevenue bundle.revenue,
    factParam .baseCost (income.bind (·.operatingCost)),
    factParam .baseOpex (income.bind (·.opex)),
    factParam .baseOperatingProfit (income.bind (·.operatingProfit)),
    factParam .baseParentProfit (income.bind (·.netProfitParent)),
    factParam .baseCfo (cashflow.bind (·.netCfo)),
    factParam .baseCapex (cashflow.bind (·.capex)),
    factParam .baseDepreciation (cashflow.bind (·.depreciation)),
    factParam .inventory (balance.bind (·.inventory)),
    factParam .receivables (balance.bind fun row => row.notesAndAccountsReceivable.or row.accountsReceivable),
    factParam .payables (balance.bind fun row => row.notesAndAccountsPayable.or row.accountsPayable),
    factParam .shares bundle.shares,
    rangeAssumption .revenueGrowth (historicalGrowth bundle) bundle.template.priorGrowthRange (-4 / 5, 3 / 2),
    rangeAssumption .grossMargin bundle.grossHistory bundle.template.grossFallback (-1 / 2, 19 / 20),
    rangeAssumption .opexRatio bundle.opexHistory bundle.template.opexFallback (-1 / 5, 3 / 2),
    assumptionParam .taxRate taxRate (max (taxRate - 3 / 100) 0) (min (taxRate + 3 / 100) (3 / 5)),
    assumptionParam .minorityRatio minorityRatio (max (minorityRatio - 2 / 100) (-1 / 2))
      (min (minorityRatio + 2 / 100) (4 / 5)),
    assumptionParam .cfoMargin cfoMargin (cfoMargin - 5 / 100) (cfoMargin + 5 / 100),
    assumptionParam .capexRatio capexRatio (max (capexRatio - 3 / 100) 0) (capexRatio + 3 / 100) ]

def parameter (parameters : List DriverParameter) (id : ParameterId) : Option DriverParameter :=
  parameters.find? (·.id = id)

def pValue (parameters : List DriverParameter) (id : ParameterId) : Option ℚ :=
  (parameter parameters id).bind (·.value)

def pLow (parameters : List DriverParameter) (id : ParameterId) : Option ℚ :=
  (parameter parameters id).bind (·.low)

def pHigh (parameters : List DriverParameter) (id : ParameterId) : Option ℚ :=
  (parameter parameters id).bind (·.high)

/-! ## Scenarios -/

structure ScenarioInputs where
  revenue : ℚ
  growth : ℚ
  grossMargin : ℚ
  opexRatio : ℚ
  taxRate : ℚ
  minorityRatio : ℚ
  cfoMargin : ℚ
  capexRatio : ℚ
  shares : Option ℚ

structure ScenarioFinancials where
  revenue : ℚ
  grossProfit : ℚ
  operatingProfit : ℚ
  tax : ℚ
  minorityProfit : ℚ
  parentNetProfit : ℚ
  eps : Option ℚ
  operatingCashFlow : ℚ
  capex : ℚ
  freeCashFlow : ℚ

def computeScenario (inputs : ScenarioInputs) : ScenarioFinancials :=
  let revenue := inputs.revenue * (1 + inputs.growth)
  let grossProfit := revenue * inputs.grossMargin
  let operatingProfit := grossProfit - revenue * inputs.opexRatio
  let tax := max operatingProfit 0 * inputs.taxRate
  let netProfit := operatingProfit - tax
  let minorityProfit := max netProfit 0 * inputs.minorityRatio
  let parentNetProfit := netProfit - minorityProfit
  let operatingCashFlow := revenue * inputs.cfoMargin
  let capex := revenue * inputs.capexRatio
  { revenue := revenue
    grossProfit := grossProfit
    operatingProfit := operatingProfit
    tax := tax
    minorityProfit := minorityProfit
    parentNetProfit := parentNetProfit
    eps := (inputs.shares.filter (0 < ·)).map (parentNetProfit / ·)
    operatingCashFlow := operatingCashFlow
    capex := capex
    freeCashFlow := operatingCashFlow - capex }

/-- The inputs of the bear, the base and the bull case, if the parameters they need are there. -/
def scenarioInputs (parameters : List DriverParameter) :
    Option (ScenarioInputs × ScenarioInputs × ScenarioInputs) := do
  let revenue ← pValue parameters .baseRevenue
  let growth ← pValue parameters .revenueGrowth
  let gross ← pValue parameters .grossMargin
  let opex ← pValue parameters .opexRatio
  let base : ScenarioInputs :=
    { revenue := revenue
      growth := growth
      grossMargin := gross
      opexRatio := opex
      taxRate := (pValue parameters .taxRate).getD (1 / 4)
      minorityRatio := (pValue parameters .minorityRatio).getD 0
      cfoMargin := (pValue parameters .cfoMargin).getD 0
      capexRatio := (pValue parameters .capexRatio).getD 0
      shares := pValue parameters .shares }
  let bear : ScenarioInputs :=
    { base with
      growth := (pLow parameters .revenueGrowth).getD growth
      grossMargin := (pLow parameters .grossMargin).getD gross
      opexRatio := (pHigh parameters .opexRatio).getD opex }
  let bull : ScenarioInputs :=
    { base with
      growth := (pHigh parameters .revenueGrowth).getD growth
      grossMargin := (pHigh parameters .grossMargin).getD gross
      opexRatio := (pLow parameters .opexRatio).getD opex }
  some (bear, base, bull)

def scenariosFrom (parameters : List DriverParameter) : List ScenarioFinancials :=
  match scenarioInputs parameters with
  | none => []
  | some (bear, base, bull) => [computeScenario bear, computeScenario base, computeScenario bull]

/-! ## Formula nodes -/

structure FormulaNode where
  id : String
  historicalValue : Option ℚ
  forecastLow : Option ℚ
  forecastBase : Option ℚ
  forecastHigh : Option ℚ

def formulaNodes (parameters : List DriverParameter) (scenarios : List ScenarioFinancials) :
    List FormulaNode :=
  let node (id : String) (historical : Option ℚ) (value : ScenarioFinancials → Option ℚ) : FormulaNode :=
    { id := id
      historicalValue := historical
      forecastLow := scenarios[0]?.bind value
      forecastBase := scenarios[1]?.bind value
      forecastHigh := scenarios[2]?.bind value }
  [ node "forecast_revenue" (pValue parameters .baseRevenue) fun s => some s.revenue,
    node "forecast_gross_profit" none fun s => some s.grossProfit,
    node "forecast_operating_profit" (pValue parameters .baseOperatingProfit) fun s => some s.operatingProfit,
    node "forecast_parent_profit" (pValue parameters .baseParentProfit) fun s => some s.parentNetProfit,
    node "forecast_eps" none fun s => s.eps,
    node "forecast_cfo" (pValue parameters .baseCfo) fun s => some s.operatingCashFlow,
    node "forecast_fcf" none fun s => some s.freeCashFlow ]

/-- The forecasts of `build_earnings_driver_tree`. -/
def buildEarningsDriverTree (bundle : FundamentalBundle) : List FormulaNode :=
  let parameters := parametersOf bundle
  formulaNodes parameters (scenariosFrom parameters)

end Astock.DriverTree
