import Astock.Lib.Float64
import Astock.Lib.Sorted

/-!
# Price adjustment

`crates/core/src/adjust.rs`: the factors of corporate actions, and the forward (qfq) and backward
(hfq) adjusted bars. Only prices are adjusted. A date is the number of its day. Bars are expected in
the order of their dates, where `partition_point` finds the first that its predicate does not hold of.
-/

namespace Astock

open Float64 Sorted

variable {F : Type} [Float64 F]

inductive VolumeUnit
  | lots
  | fundUnits
  deriving DecidableEq, Repr

/-- A market-data bar: `astock_core::Bar`. -/
structure CoreBar (F : Type) where
  date : ℤ
  openPrice : F
  close : F
  high : F
  low : F
  volume : F
  volumeUnit : VolumeUnit
  amount : Option F
  turnover : Option F
  pct : Option F
  deriving DecidableEq

/-- `Bar::new`. -/
def CoreBar.new (date : ℤ) (openPrice close high low volume : F) (volumeUnit : VolumeUnit) :
    CoreBar F where
  date := date
  openPrice := openPrice
  close := close
  high := high
  low := low
  volume := volume
  volumeUnit := volumeUnit
  amount := none
  turnover := none
  pct := none

/-- A dividend, bonus or rights issue, per share. -/
structure CorporateAction (F : Type) where
  exDate : ℤ
  noticeDate : Option ℤ
  cashDiv : F
  bonusShare : F
  rightsRatio : F
  rightsPrice : Option F

/-- `CorporateAction::new`. -/
def CorporateAction.new (exDate : ℤ) (cashDiv bonusShare : F) : CorporateAction F where
  exDate := exDate
  noticeDate := none
  cashDiv := cashDiv
  bonusShare := bonusShare
  rightsRatio := lit 0
  rightsPrice := none

inductive AdjustWarning (F : Type)
  | rightsWithoutPrice (exDate : ℤ)
  | missingPrevClose (exDate : ℤ)
  | nonPositivePrevClose (exDate : ℤ) (prevClose : F)
  | nonPositiveExPrice (exDate : ℤ) (exPrice : F)
  deriving DecidableEq

structure Adjusted (F : Type) where
  bars : List (CoreBar F)
  warnings : List (AdjustWarning F)

/-! ## Factors -/

/-- The rights ratio and price that an action is applied with, and whether its price is missing. -/
def CorporateAction.rights (action : CorporateAction F) : (F × F) × List (AdjustWarning F) :=
  match action.rightsPrice with
  | none =>
    if lit 0 < action.rightsRatio then ((lit 0, lit 0), [.rightsWithoutPrice action.exDate])
    else ((action.rightsRatio, lit 0), [])
  | some price => ((action.rightsRatio, price), [])

/-- One round of the loop of `action_factors`: the factor of the action, if it is not skipped, and
its warnings. -/
def actionFactor (bars : List (CoreBar F)) (action : CorporateAction F) :
    Option (ℤ × F) × List (AdjustWarning F) :=
  match partitionPoint (fun b => b.date < action.exDate) bars with
  | 0 => (none, [.missingPrevClose action.exDate])
  | i + 1 =>
    match bars[i]? with
    | none => (none, [])
    | some prev =>
      let c := prev.close
      if c ≤ lit 0 then (none, [.nonPositivePrevClose action.exDate c])
      else
        let ((r, p), warnings) := action.rights
        let x := (c - action.cashDiv + p * r) / (lit 1 + action.bonusShare + r)
        if x ≤ lit 0 then (none, warnings ++ [.nonPositiveExPrice action.exDate x])
        else (some (action.exDate, x / c), warnings)

/-- The actions that are known, by their dates. -/
def knownActions (actions : List (CorporateAction F)) (asOf : ℤ) (noticeCutoff : Option ℤ) :
    List (CorporateAction F) :=
  sortByKey CorporateAction.exDate ((actions.filter (·.exDate ≤ asOf)).filter fun a =>
    match noticeCutoff, a.noticeDate with
    | some cutoff, some notice => notice ≤ cutoff
    | _, _ => true)

/-- `action_factors`. -/
def actionFactors (bars : List (CoreBar F)) (actions : List (CorporateAction F)) (asOf : ℤ)
    (noticeCutoff : Option ℤ) : List (ℤ × F) × List (AdjustWarning F) :=
  let rounds := (knownActions actions asOf noticeCutoff).map (actionFactor bars)
  (rounds.filterMap Prod.fst, rounds.flatMap Prod.snd)

/-! ## Adjusted bars -/

/-- `scale_bar`. -/
def scaleBar (bar : CoreBar F) (factor : F) (prevAdjustedClose : Option F) (keepPct : Bool) :
    CoreBar F :=
  let out := { bar with
    openPrice := bar.openPrice * factor
    close := bar.close * factor
    high := bar.high * factor
    low := bar.low * factor }
  if keepPct then out
  else { out with
    pct := prevAdjustedClose.bind fun prev =>
      if lit 0 < prev then
        let pct := (out.close - prev) / prev * lit 100
        some (Float64.round (pct * lit 100) / lit 100)
      else none }

/-- `suffix[k]` is this product over the factors from `k` on. -/
def suffixProduct : List (ℤ × F) → F
  | [] => lit 1
  | factor :: rest => suffixProduct rest * factor.2

/-- The factor of a bar: the product over the actions after its date. -/
def barFactor (factors : List (ℤ × F)) (bar : CoreBar F) : F :=
  suffixProduct (factors.drop (partitionPoint (fun f => f.1 ≤ bar.date) factors))

/-- The loop of `compute_qfq`. -/
def scaleBars (factors : List (ℤ × F)) (prevFactor : F) (prevClose : Option F) :
    List (CoreBar F) → List (CoreBar F)
  | [] => []
  | bar :: rest =>
    let factor := barFactor factors bar
    let keepPct := factor == prevFactor && bar.pct.isSome
    let out := scaleBar bar factor prevClose keepPct
    out :: scaleBars factors factor (some out.close) rest

/-- `compute_qfq`: forward-adjusted bars. -/
def computeQfq (bars : List (CoreBar F)) (actions : List (CorporateAction F)) (anchorDate : ℤ)
    (noticeCutoff : Option ℤ) : Adjusted F :=
  let (factors, warnings) := actionFactors bars actions anchorDate noticeCutoff
  if bars.all fun bar => barFactor factors bar == lit 1 then { bars := bars, warnings := warnings }
  else { bars := scaleBars factors (lit 1) none bars, warnings := warnings }

/-- The loop of `compute_hfq`. -/
def rescaleBars (scale : F) (prevClose : Option F) : List (CoreBar F) → List (CoreBar F)
  | [] => []
  | bar :: rest =>
    let out := scaleBar bar scale prevClose true
    out :: rescaleBars scale (some out.close) rest

/-- `compute_hfq`: backward-adjusted bars. -/
def computeHfq (bars : List (CoreBar F)) (actions : List (CorporateAction F))
    (noticeCutoff : Option ℤ) : Adjusted F :=
  match bars.head?, bars.getLast? with
  | some first, some last =>
    let qfq := computeQfq bars actions last.date noticeCutoff
    match qfq.bars.head? with
    | none => qfq
    | some adjusted =>
      if adjusted.close ≤ lit 0 ∨ first.close ≤ lit 0 then qfq
      else
        let scale := first.close / adjusted.close
        { bars := rescaleBars scale none qfq.bars, warnings := qfq.warnings }
  | _, _ => { bars := [], warnings := [] }

end Astock
