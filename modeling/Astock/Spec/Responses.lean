import Astock.Lib.Cursor
import Astock.Lib.Float64
import Astock.Lib.Stream
import Astock.Lib.Text

/-!
# The market protocol

## Numbers of the market protocol

`crates/tdx/src/protocol/varint.rs`: prices of variable length, and volumes in four bytes. An `i64` is
a `BitVec 64`, read in two's complement.
-/

namespace Astock.Tdx

abbrev Bytes := List UInt8

/-- The operations on `i64` that can overflow. -/
structure Profile (m : Type → Type) where
  shl : BitVec 64 → ℕ → m (BitVec 64)
  neg : BitVec 64 → m (BitVec 64)

/-- A build with overflow checks: the value is missing where it panics. -/
def checked : Profile Option where
  shl x n := if n < 64 then some (x <<< n) else none
  neg x := if x = BitVec.intMin 64 then none else some (-x)

/-- A build without them: the amount of a shift is taken modulo 64. -/
def wrapping : Profile Id where
  shl x n := x <<< (n % 64)
  neg x := -x

/-- The bit that says that another byte follows. -/
def continues (b : UInt8) : Bool := b &&& 0x80 ≠ 0

section Price

variable {m : Type → Type} [Monad m] (profile : Profile m)

/-- The groups of seven bits after the first byte, from `pos` on; nothing when the data end. -/
def priceLoop : Bytes → ℕ → ℕ → BitVec 64 → m (Option (BitVec 64 × ℕ))
  | [], _, _, _ => pure none
  | b :: rest, pos, shift, result => do
    let group ← profile.shl ((b &&& 0x7F).toBitVec.setWidth 64) shift
    let result := result ||| group
    if continues b then priceLoop rest (pos + 1) (shift + 7) result
    else pure (some (result, pos + 1))

/-- `get_price`: the value, and the position after it. -/
def getPrice (data : Bytes) (pos : ℕ) : m (BitVec 64 × ℕ) :=
  match data.drop pos with
  | [] => pure (0, data.length)
  | first :: rest => do
    let sign := first &&& 0x40 ≠ 0
    let result := (first &&& 0x3F).toBitVec.setWidth 64
    let read ←
      if continues first then priceLoop profile rest (pos + 1) 6 result
      else pure (some (result, pos + 1))
    match read with
    | none => pure (0, data.length)
    | some (result, next) => do
      let val ← if sign then profile.neg result else pure result
      pure (val, next)

end Price

/-- The groups that `encode_price` writes after the first byte. -/
def encodeGroups (mag : ℕ) : Bytes :=
  if h : mag = 0 then []
  else
    let b := UInt8.ofNat (mag % 128)
    (if mag / 128 ≠ 0 then b ||| 0x80 else b) :: encodeGroups (mag / 128)
termination_by mag
decreasing_by omega

def encodePrice (val : ℤ) : Bytes :=
  let mag := val.natAbs
  let first := UInt8.ofNat (mag % 64)
  let first := if val < 0 then first ||| 0x40 else first
  (if mag / 64 ≠ 0 then first ||| 0x80 else first) :: encodeGroups (mag / 64)

section Volume

open Float64 BinaryFloat

/-- `get_volume`, of the 32 bits that were read. -/
def getVolume {F : Type} [BinaryFloat F] (vol : ℕ) : F :=
  if vol = 0 then lit 0
  else
    let logpoint : ℤ := (vol / 2 ^ 24 : ℕ)
    let hleax : ℕ := vol / 2 ^ 16 % 256
    let lheax : ℕ := vol / 2 ^ 8 % 256
    let lleax : ℕ := vol % 256
    let low : ℕ := hleax % 128
    let ecx := logpoint * 2 - 0x7F
    let edx := logpoint * 2 - 0x86
    let esi := logpoint * 2 - 0x8E
    let eax := logpoint * 2 - 0x96
    let xmm6 : F := exp2 |ecx|
    let xmm6 := if ecx < 0 then lit 1 / xmm6 else xmm6
    let xmm4 : F :=
      if 0x80 < hleax then exp2 edx * lit 128 + lit low * exp2 (edx + 1)
      else if 0 ≤ edx then exp2 edx * lit hleax
      else lit 1 / exp2 (-edx) * lit hleax
    let xmm3 : F := exp2 esi * lit lheax
    let xmm1 : F := exp2 eax * lit lleax
    let xmm3 := if 0x80 ≤ hleax then xmm3 * lit 2 else xmm3
    let xmm1 := if 0x80 ≤ hleax then xmm1 * lit 2 else xmm1
    xmm6 + xmm4 + xmm3 + xmm1

end Volume

end Astock.Tdx

/-!
## Market responses

`crates/tdx/src/protocol/parse.rs`: the bodies of the responses with bars and with quotes, in a build
without overflow checks. A number that does not fit into the rest of the data reads as 0.
-/

namespace Astock.Tdx

open Stream Cursor Float64

section Readers

def readLe (width : ℕ) (data : Bytes) (pos : ℕ) : ℕ :=
  if data.length < pos + width then 0 else ofLeBytes ((data.drop pos).take width)

def readU16 : Bytes → ℕ → ℕ := readLe 2

def readU32 : Bytes → ℕ → ℕ := readLe 4

def u16 : Cursor UInt8 ℕ := fun data pos => (readU16 data pos, pos + 2)

def u32 : Cursor UInt8 ℕ := fun data pos => (readU32 data pos, pos + 4)

def price : Cursor UInt8 (BitVec 64) := fun data pos => getPrice wrapping data pos

/-- `body[pos..pos + n]`; the guard of the record keeps it within the data. -/
def slice (n : ℕ) : Cursor UInt8 Bytes := fun data pos => ((data.drop pos).take n, pos + n)

end Readers

section Bars

structure Datetime where
  year : ℕ
  month : ℕ
  day : ℕ
  hour : ℕ
  minute : ℕ

/-- `get_datetime`: minutes are packed into two halves, a day is the number YYYYMMDD. -/
def getDatetime (minuteLevel : Bool) : Cursor UInt8 Datetime :=
  if minuteLevel then do
    let zipDay ← u16
    let minutes ← u16
    return ⟨zipDay / 2 ^ 11 + 2004, zipDay % 2048 / 100, zipDay % 2048 % 100, minutes / 60, minutes % 60⟩
  else do
    let zipDay ← u32
    return ⟨zipDay / 10000, zipDay % 10000 / 100, zipDay % 100, 0, 0⟩

/-- The check on the date of a bar. -/
def Datetime.isLegal (d : Datetime) : Bool :=
  1980 ≤ d.year && d.year ≤ 2100 && 1 ≤ d.month && d.month ≤ 12 && 1 ≤ d.day && d.day ≤ 31

/-- `format!("{n:0width}")`. -/
def padded (width n : ℕ) : String := String.ofList ((toString n).toList.leftpad width '0')

def Datetime.text (minuteLevel : Bool) (d : Datetime) : String :=
  let date := padded 4 d.year ++ "-" ++ padded 2 d.month ++ "-" ++ padded 2 d.day
  if minuteLevel then date ++ " " ++ padded 2 d.hour ++ ":" ++ padded 2 d.minute else date

structure SecurityBar (F : Type) where
  datetime : String
  «open» : F
  close : F
  high : F
  low : F
  vol : F
  amount : F

variable {F : Type} [BinaryFloat F]

/-- A bar, and the close that the next one builds on; none when the date is not legal. -/
def readBar (minuteLevel : Bool) (preDiffBase : BitVec 64) :
    Cursor UInt8 (Option (SecurityBar F × BitVec 64)) := do
  let datetime ← getDatetime minuteLevel
  if datetime.isLegal then
    let openDiff ← price
    let closeDiff ← price
    let highDiff ← price
    let lowDiff ← price
    let vol ← u32
    let amount ← u32
    let openRaw := preDiffBase + openDiff
    let closeRaw := openRaw + closeDiff
    return some
      ({ datetime := datetime.text minuteLevel
         «open» := lit openRaw.toInt / lit 1000
         close := lit closeRaw.toInt / lit 1000
         high := lit (openRaw + highDiff).toInt / lit 1000
         low := lit (openRaw + lowDiff).toInt / lit 1000
         vol := getVolume vol
         amount := getVolume amount }, closeRaw)
  else return none

/-- The bytes that the loop asks for before it reads a bar. -/
def barGuard : ℕ := 16

/-- `parse_security_bars`. -/
def parseSecurityBars (body : Bytes) (minuteLevel : Bool) : Except String (List (SecurityBar F)) :=
  if body.length < 2 then .error "bars body too short"
  else .ok ((records barGuard (readBar minuteLevel) (readU16 body 0) 0).readAt body 2).1

end Bars

section Quotes

def securityType (market : UInt8) (code : String) : ℕ :=
  let startsWith := Text.startsWith code
  if market = 1 then
    if startsWith "60" || startsWith "68" then 1
    else if startsWith "90" then 2
    else if startsWith "519" then 5
    else if startsWith "50" || startsWith "51" || startsWith "58" then 3
    else if startsWith "11" || startsWith "13" then 4
    else if startsWith "000" then 0
    else 1
  else if market = 0 then
    if startsWith "39" then 0
    else if startsWith "00" || startsWith "30" then 1
    else if startsWith "20" then 2
    else if startsWith "15" || startsWith "16" then 3
    else if startsWith "10" || startsWith "12" || startsWith "13" then 4
    else 1
  else 1

structure Quote (F : Type) where
  market : UInt8
  code : String
  price : F
  lastClose : F
  «open» : F
  high : F
  low : F
  servertime : String
  vol : F
  curVol : F
  amount : F
  sVol : F
  bVol : F
  bid : List (F × F)
  ask : List (F × F)

/-- The time as text: HHMMSSmmm, when it has that many digits. -/
def servertime (raw : ℤ) : String :=
  let text := (toString raw).toList
  if 8 ≤ text.length then
    let rest := text.drop (text.length - 6)
    String.ofList (text.take (text.length - 6) ++ ':' :: rest.take 2 ++ ':' :: (rest.drop 2).take 2)
  else toString raw

variable {F : Type} [BinaryFloat F]

/-- `price_coefficient`. -/
def priceCoefficient (market : UInt8) (code : String) : F :=
  match securityType market code with
  | 2 => lit (1 / 1000)
  | 3 => lit (1 / 1000)
  | 4 => lit (1 / 10000)
  | 5 => lit (1 / 100000)
  | _ => lit (1 / 100)

/-- One level of the book: what is bid and what is asked. -/
def readLevel (priceRaw : BitVec 64) (coefficient : F) : Cursor UInt8 ((F × F) × (F × F)) := do
  let bidDiff ← price
  let askDiff ← price
  let bidVol ← price
  let askVol ← price
  return ((lit (priceRaw + bidDiff).toInt * coefficient, lit bidVol.toInt),
    (lit (priceRaw + askDiff).toInt * coefficient, lit askVol.toInt))

def readQuote : Cursor UInt8 (Quote F) := do
  let market := (← slice 1).headD 0
  let code := Text.trimEndMatches (· = Char.ofNat 0) (Text.fromUtf8Lossy (← slice 6))
  skip 2
  let priceRaw ← price
  let lastCloseDiff ← price
  let openDiff ← price
  let highDiff ← price
  let lowDiff ← price
  let servertimeRaw ← price
  let _reversed1 ← price
  let vol ← price
  let curVol ← price
  let amount ← u32
  let sVol ← price
  let bVol ← price
  let _reversed2 ← price
  let _reversed3 ← price
  let coefficient := priceCoefficient market code
  let levels ← (List.range 5).mapM fun _ => readLevel priceRaw coefficient
  skip 2
  let _reversed5To8 ← (List.range 4).mapM fun _ => price
  skip 2
  skip 2
  return {
    market
    code
    price := lit priceRaw.toInt * coefficient
    lastClose := lit (priceRaw + lastCloseDiff).toInt * coefficient
    «open» := lit (priceRaw + openDiff).toInt * coefficient
    high := lit (priceRaw + highDiff).toInt * coefficient
    low := lit (priceRaw + lowDiff).toInt * coefficient
    servertime := servertime servertimeRaw.toInt
    vol := lit vol.toInt
    curVol := lit curVol.toInt
    amount := getVolume amount
    sVol := lit sVol.toInt
    bVol := lit bVol.toInt
    bid := levels.map Prod.fst
    ask := levels.map Prod.snd }

/-- The bytes that the loop asks for before it reads a quote. -/
def quoteGuard : ℕ := 30

/-- `parse_security_quotes`. -/
def parseSecurityQuotes (body : Bytes) : Except String (List (Quote F)) :=
  if body.length < 4 then .error "quotes body too short"
  else
    let read := fun _ : Unit => return some (← readQuote, ())
    .ok ((records quoteGuard read (readU16 body 2) ()).readAt body 4).1

end Quotes

end Astock.Tdx

/-!
## Fetching bars page by page

`TdxClient::kline` in `crates/tdx/src/client.rs`, the packet it sends
(`build_security_bars_packet` in `protocol/frame.rs`) and the kinds of bars (`protocol/types.rs`).
The pool of servers is a parameter.
-/

namespace Astock.Tdx

open Stream

inductive KlineCategory
  | fiveMin | fifteenMin | thirtyMin | oneHour | daily | weekly | monthly | exHqOneMin | oneMin
  | dailyRiK | quarterly | yearly
  deriving DecidableEq, Repr

namespace KlineCategory

def asU8 : KlineCategory → ℕ
  | fiveMin => 0
  | fifteenMin => 1
  | thirtyMin => 2
  | oneHour => 3
  | daily => 4
  | weekly => 5
  | monthly => 6
  | exHqOneMin => 7
  | oneMin => 8
  | dailyRiK => 9
  | quarterly => 10
  | yearly => 11

def isMinuteLevel : KlineCategory → Bool
  | fiveMin | fifteenMin | thirtyMin | oneHour | exHqOneMin | oneMin => true
  | _ => false

end KlineCategory

def magic : ℕ := 0x010C

def cmdSecurityBars : ℕ := 0x052D

/-- The bars that one request may ask for. -/
def maxKlineCount : ℕ := 800

/-- `code_bytes`: six bytes, filled up with zeros. -/
def codeBytes (code : String) : Bytes := (code.toUTF8.toList.take 6).rightpad 6 0

def buildSecurityBarsPacket (category : ℕ) (market : UInt8) (code : String) (start count : ℕ) : Bytes :=
  leBytes 2 magic ++ leBytes 4 0x01016408 ++ leBytes 2 0x001C ++ leBytes 2 0x001C ++
    leBytes 2 cmdSecurityBars ++ leBytes 2 market.toNat ++ codeBytes code ++ leBytes 2 category ++
    leBytes 2 0 ++ leBytes 2 start ++ leBytes 2 count ++ leBytes 4 0 ++ leBytes 4 0 ++ leBytes 2 0

/-- How fetching ends early. -/
inductive KlineError
  /-- `TdxError`, of the pool or of the parser. -/
  | request (message : String)
  /-- The panic of `start += page.len() as u16`. -/
  | overflow
  deriving DecidableEq, Repr

section Loop

variable {F : Type} [BinaryFloat F] (request : Bytes → Except String Bytes) (market : UInt8) (code : String)
  (category : KlineCategory) (count : ℕ)

/-- The loop: `start` bars from the latest on are there, in pages from the latest to the earliest. -/
def klineLoop (pages : List (List (SecurityBar F))) (fetched start : ℕ) :
    Except KlineError (List (List (SecurityBar F))) :=
  if hless : fetched < count then
    let want := min (count - fetched) maxKlineCount
    match request (buildSecurityBarsPacket category.asU8 market code start want) with
    | .error message => .error (.request message)
    | .ok body =>
      match parseSecurityBars body category.isMinuteLevel with
      | .error message => .error (.request message)
      | .ok page =>
        if hempty : page = [] then .ok pages
        else if 65535 < start + page.length then .error .overflow
        else if page.length < want then .ok (pages ++ [page])
        else klineLoop (pages ++ [page]) (fetched + page.length) (start + page.length)
  else .ok pages
termination_by count - fetched
decreasing_by
  have := List.length_pos_iff.2 hempty
  omega

/-- `TdxClient::kline`, in a build with overflow checks. -/
def kline : Except KlineError (List (SecurityBar F)) :=
  (klineLoop request market code category count [] 0 0).map fun pages => pages.reverse.flatten

end Loop

end Astock.Tdx
