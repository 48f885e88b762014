import Mathlib.Tactic

/-!
# News and trading sessions

`crates/trading-rules/src/news_session.rs`: a revision of a news item is mapped to the first A-share
session in which it could have influenced a decision, over the calendar and the auction windows of
`lib.rs`. A date is its number of days since 1970-01-01, a time stamp its seconds since then. The
rules are taken as they are after loading, with their times parsed; the text of a time stamp is
given from outside.
-/

namespace Astock

/-- A time of day in seconds, without leap seconds. -/
abbrev TimeOfDay := Fin 86400

/-- The dates that `NaiveDate` can hold. -/
def minDate : ℤ := -96465293

def maxDate : ℤ := 95026236

structure AuctionTimes where
  start : TimeOfDay
  stop : TimeOfDay

structure AuctionWindows where
  openCallAuction : AuctionTimes
  continuousMorning : AuctionTimes
  continuousAfternoon : AuctionTimes
  closeCallAuction : AuctionTimes

/-- The part of a rule set that sessions depend on. -/
structure SessionRules where
  version : String
  auction : AuctionWindows
  weekendClosed : Bool
  holidays : List ℤ

/-- The day of the week, from 0 for Monday. -/
def weekday (date : ℤ) : ℤ := (date + 3) % 7

namespace SessionRules

variable (rules : SessionRules)

/-- Whether `date` is an exchange trading day (weekday and not a holiday). -/
def isTradingDay (date : ℤ) : Bool :=
  !(rules.weekendClosed && 5 ≤ weekday date) && date ∉ rules.holidays

/-- The loop of `next_trading_day`, for at most `n` more days. -/
def searchTradingDay : ℕ → ℤ → Option ℤ
  | 0, _ => none
  | n + 1, date =>
    if rules.isTradingDay (date + 1) then some (date + 1) else searchTradingDay n (date + 1)

/-- The first trading day strictly after `date`; none when the loop runs out of dates and panics. -/
def nextTradingDay (date : ℤ) : Option ℤ := rules.searchTradingDay (maxDate - date).toNat date

end SessionRules

/-- Precision actually supplied by the upstream publication clock. -/
inductive PublicationPrecision
  | exactTime
  | dateOnly
  | missing
  deriving DecidableEq, Repr

inductive EffectiveSessionRole
  | sameDayPremarket
  | intraday
  | nextTradingDay
  | historicalOnly
  deriving DecidableEq, Repr

inductive EffectiveMarketPhase
  | premarket
  | openingAuction
  | morningTrading
  | lunchBreak
  | afternoonTrading
  | closingAuction
  | afterClose
  | nonTradingDay
  deriving DecidableEq, Repr

inductive NewsEvidenceUse
  | decisionEvidence
  | verificationLead
  | historicalContext
  deriving DecidableEq, Repr

structure NewsSessionInput where
  eventTimeUtc : Option ℤ := none
  publishTimeUtc : Option ℤ
  firstSeenTimeUtc : ℤ
  revisionTimeUtc : Option ℤ
  publicationPrecision : PublicationPrecision
  stale : Bool := false
  verified : Bool := true
  discoveryOnly : Bool := false
  oldRepublication : Bool := false
  deriving DecidableEq

structure EffectiveNewsSession where
  targetTradingDate : ℤ
  role : EffectiveSessionRole
  phase : EffectiveMarketPhase
  effectiveAtUtc : ℤ
  effectiveAtChina : String
  publicationPrecision : PublicationPrecision
  timeUncertain : Bool
  evidenceUse : NewsEvidenceUse
  canIncreaseConfidence : Bool
  rationale : String
  rulesVersion : String
  deriving DecidableEq

inductive SessionError
  | invalidTimestamp (timestamp : ℤ)
  /-- The call panics: a date runs out of range. -/
  | panic
  deriving DecidableEq

/-- The seconds between China and UTC. -/
def chinaOffset : ℤ := 8 * 3600

/-- The China-local date of a time stamp. -/
def chinaDate (timestamp : ℤ) : ℤ := (timestamp + chinaOffset) / 86400

/-- The China-local time of a time stamp. -/
def chinaClock (timestamp : ℤ) : TimeOfDay :=
  ⟨((timestamp + chinaOffset) % 86400).toNat, by
    have := Int.emod_lt_of_pos (timestamp + chinaOffset) (show (0 : ℤ) < 86400 by decide)
    omega⟩

/-- The time stamp of a China-local date and time. -/
def chinaStamp (date : ℤ) (time : TimeOfDay) : ℤ := date * 86400 + time.val - chinaOffset

/-- `china_time(timestamp)` with its date read: the local date may be out of range. -/
def chinaTime (timestamp : ℤ) : Except SessionError (ℤ × TimeOfDay) :=
  if timestamp / 86400 < minDate ∨ maxDate < timestamp / 86400 then .error (.invalidTimestamp timestamp)
  else if maxDate < chinaDate timestamp then .error .panic
  else .ok (chinaDate timestamp, chinaClock timestamp)

/-- `at_china_time`. -/
def atChinaTime (date : ℤ) (time : TimeOfDay) : Except SessionError ℤ :=
  if chinaStamp date time / 86400 < minDate then .error (.invalidTimestamp 0)
  else .ok (chinaStamp date time)

/-- The phase of the market. -/
def phase (rules : SessionRules) (date : ℤ) (time : TimeOfDay) : EffectiveMarketPhase :=
  let windows := rules.auction
  if !rules.isTradingDay date then .nonTradingDay
  else if time < windows.openCallAuction.start ∨
      windows.openCallAuction.stop ≤ time ∧ time < windows.continuousMorning.start then .premarket
  else if time < windows.openCallAuction.stop then .openingAuction
  else if time < windows.continuousMorning.stop then .morningTrading
  else if time < windows.continuousAfternoon.start then .lunchBreak
  else if time < windows.continuousAfternoon.stop then .afternoonTrading
  else if windows.closeCallAuction.start ≤ time ∧ time < windows.closeCallAuction.stop then
    .closingAuction
  else .afterClose

def NewsSessionInput.observedAt (input : NewsSessionInput) : ℤ :=
  max (input.revisionTimeUtc.getD input.firstSeenTimeUtc) input.firstSeenTimeUtc

/-- 15:00. -/
def dateOnlyTime : TimeOfDay := 54000

/-- The publication time that counts, whether it is uncertain, and why. -/
def publishedAt (input : NewsSessionInput) : Except SessionError (ℤ × Bool × String) :=
  match input.publicationPrecision with
  | .exactTime =>
    .ok (input.publishTimeUtc.getD input.observedAt, input.publishTimeUtc.isNone,
      if input.publishTimeUtc.isSome then "精确发布时间" else "精确发布时间缺失，退回系统首次发现")
  | .dateOnly => do
    let (date, _) ← chinaTime (input.publishTimeUtc.getD input.observedAt)
    let published ← atChinaTime date dateOnlyTime
    .ok (published, true, "来源仅提供日期，保守按当日15:00处理")
  | .missing =>
    .ok (input.observedAt, true, "来源未提供发布时间，以系统首次发现/修订时间为最早可用时点")

/-- The session of a local date and time. -/
def sessionAt (rules : SessionRules) (date : ℤ) (time : TimeOfDay) :
    Except SessionError (ℤ × EffectiveSessionRole × String) :=
  if !rules.isTradingDay date then
    match rules.nextTradingDay date with
    | some next => .ok (next, .nextTradingDay, "该时点为休市日，归入下一交易日")
    | none => .error .panic
  else if rules.auction.closeCallAuction.stop ≤ time then
    match rules.nextTradingDay date with
    | some next => .ok (next, .nextTradingDay, "该时点不早于15:00收盘边界，归入下一交易日")
    | none => .error .panic
  else if time < rules.auction.openCallAuction.start then
    .ok (date, .sameDayPremarket, "该时点早于09:15集合竞价，归入当日盘前")
  else .ok (date, .intraday, "该时点位于当日可交易决策窗口（含集合竞价与午休）")

def evidenceUse (input : NewsSessionInput) : NewsEvidenceUse :=
  if input.oldRepublication then .historicalContext
  else if input.stale || !input.verified || input.discoveryOnly then .verificationLead
  else .decisionEvidence

def NewsEvidenceUse.reason : NewsEvidenceUse → String
  | .decisionEvidence => "来源与新鲜度允许作为决策证据"
  | .verificationLead => "stale、未核验或仅发现线索不得提高仓位/结论置信度"
  | .historicalContext => "旧闻重发仅作历史背景，不得重复视为新催化"

/-- Map one immutable news revision to the first A-share session in which it could have influenced a
decision. -/
def classifyNewsSession (format : ℤ → String) (rules : SessionRules) (input : NewsSessionInput) :
    Except SessionError EffectiveNewsSession := do
  let (published, timeUncertain, clockReason) ← publishedAt input
  let effectiveAt := max published input.observedAt
  let (localDate, localTime) ← chinaTime effectiveAt
  let (target, baseRole, boundaryReason) ← sessionAt rules localDate localTime
  .ok {
    targetTradingDate := target
    role := if input.oldRepublication then .historicalOnly else baseRole
    phase := phase rules localDate localTime
    effectiveAtUtc := effectiveAt
    effectiveAtChina := format effectiveAt
    publicationPrecision := input.publicationPrecision
    timeUncertain
    evidenceUse := evidenceUse input
    canIncreaseConfidence := evidenceUse input = .decisionEvidence
    rationale := clockReason ++ "；" ++ boundaryReason ++ "；" ++ (evidenceUse input).reason
    rulesVersion := rules.version }

/-- The windows of the exchanges, with weekends closed. -/
def exchangeRules : SessionRules where
  version := "2025.1"
  auction := {
    openCallAuction := ⟨33300, 33900⟩
    continuousMorning := ⟨34200, 41400⟩
    continuousAfternoon := ⟨46800, 53820⟩
    closeCallAuction := ⟨53820, 54000⟩ }
  weekendClosed := true
  holidays := []

end Astock
