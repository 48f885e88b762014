import Astock.Spec.Responses

/-!
# Responses that are cut off

* `price_reads`: a price is read from its own bytes alone.
* `barFormat`, `quoteFormat`: what the loops over the records make of one record, whole or cut.
* `responses_cut_iff`: **a cut response gives the records that are all there, and no other, exactly
  if no record is cut after its guard.**
* `bar_made_up`: a bar whose volume and amount were never sent.
-/

namespace Astock.Tdx

open Stream Cursor Float64

/-! ## Numbers -/

/-- The bytes of a price: all but the last say that another follows. -/
structure PriceBytes where
  init : Bytes
  last : UInt8
  more : ∀ b ∈ init, continues b
  ends : continues last = false

namespace PriceBytes

def bytes (p : PriceBytes) : Bytes := p.init ++ [p.last]

theorem length_pos (p : PriceBytes) : 1 ≤ p.bytes.length := by
  rw [bytes, List.length_append, List.length_singleton]
  omega

end PriceBytes

/-- Bytes of a fixed width. -/
abbrev Fixed (n : ℕ) := { l : Bytes // l.length = n }

theorem priceLoop_wrapping {last : UInt8} (hlast : continues last = false) :
    ∀ (init : Bytes) (shift : ℕ) (result : BitVec 64), (∀ b ∈ init, continues b) →
      ∃ v, ∀ more pos, priceLoop wrapping (init ++ last :: more) pos shift result =
        some (v, pos + init.length + 1) := by
  intro init
  induction init with
  | nil =>
    intro shift result _
    refine ⟨result ||| (last &&& 0x7F).toBitVec.setWidth 64 <<< (shift % 64), fun more pos => ?_⟩
    rw [List.nil_append, priceLoop, hlast]
    rfl
  | cons b init ih =>
    intro shift result hinit
    obtain ⟨hb, hinit⟩ := List.forall_mem_cons.1 hinit
    obtain ⟨v, hv⟩ := ih (shift + 7)
      (result ||| (b &&& 0x7F).toBitVec.setWidth 64 <<< (shift % 64)) hinit
    refine ⟨v, fun more pos => ?_⟩
    have hnext : pos + (b :: init).length + 1 = pos + 1 + init.length + 1 := by
      rw [List.length_cons]
      omega
    rw [List.cons_append, priceLoop, hb, hnext]
    exact hv more (pos + 1)

/-- **A price is read** from its bytes, wherever they stand. -/
theorem price_reads (p : PriceBytes) : ∃ v, Reads price p.bytes v := by
  obtain ⟨init, last, hinit, hlast⟩ := p
  cases init with
  | nil =>
    refine ⟨if last &&& 0x40 ≠ 0 then -(last &&& 0x3F).toBitVec.setWidth 64
      else (last &&& 0x3F).toBitVec.setWidth 64, fun before after => ?_⟩
    have hdata : (before ++ [last] ++ after).drop before.length = last :: after := by
      rw [List.append_assoc, List.drop_left]
      rfl
    show getPrice wrapping (before ++ [last] ++ after) before.length = _
    rw [getPrice, hdata]
    simp only [hlast, Bool.false_eq_true, if_false]
    by_cases hsign : last &&& 0x40 ≠ 0
    · simp only [if_pos hsign]
      rfl
    · simp only [if_neg hsign]
      rfl
  | cons first init =>
    obtain ⟨hfirst, hinit⟩ := List.forall_mem_cons.1 hinit
    obtain ⟨v, hv⟩ := priceLoop_wrapping hlast init 6 ((first &&& 0x3F).toBitVec.setWidth 64) hinit
    refine ⟨if first &&& 0x40 ≠ 0 then -v else v, fun before after => ?_⟩
    have hdata : (before ++ (first :: init ++ [last]) ++ after).drop before.length =
        first :: (init ++ last :: after) := by
      rw [List.append_assoc, List.drop_left, List.append_assoc]
      rfl
    have hnext : before.length + (first :: init ++ [last]).length = before.length + 1 + init.length + 1 := by
      simp only [List.length_append, List.length_cons, List.length_nil]
      omega
    show getPrice wrapping (before ++ (first :: init ++ [last]) ++ after) before.length =
      (_, before.length + (first :: init ++ [last]).length)
    rw [getPrice, hdata, hnext]
    simp only [hfirst, if_true]
    rw [hv after (before.length + 1)]
    by_cases hsign : first &&& 0x40 ≠ 0
    · simp only [if_pos hsign]
      rfl
    · simp only [if_neg hsign]
      rfl

theorem take_fixed {k n : ℕ} (l : Fixed k) {rest : Bytes} (h : k ≤ n) :
    (l.1 ++ rest).take n = l.1 ++ rest.take (n - k) := by
  obtain ⟨l, rfl⟩ := l
  rw [List.take_append, List.take_of_length_le h]

theorem slice_reads {n : ℕ} (l : Fixed n) : Reads (slice n) l.1 l.1 := by
  intro before after
  obtain ⟨l, rfl⟩ := l
  show (((before ++ l ++ after).drop before.length).take l.length, before.length + l.length) = _
  rw [List.append_assoc, List.drop_left, List.take_left]

theorem readLe_within {n : ℕ} (l : Fixed n) (before after : Bytes) :
    readLe n (before ++ l.1 ++ after) before.length = ofLeBytes l.1 := by
  obtain ⟨l, rfl⟩ := l
  have hlong : ¬ (before ++ l ++ after).length < before.length + l.length := by
    simp only [List.length_append]
    omega
  rw [readLe, if_neg hlong, List.append_assoc, List.drop_left, List.take_left]

theorem u16_reads (l : Fixed 2) : Reads u16 l.1 (ofLeBytes l.1) := by
  intro before after
  show (readLe 2 _ _, before.length + 2) = _
  rw [readLe_within, l.2]

theorem u32_reads (l : Fixed 4) : Reads u32 l.1 (ofLeBytes l.1) := by
  intro before after
  show (readLe 4 _ _, before.length + 4) = _
  rw [readLe_within, l.2]

/-! ## Bars -/

/-- The date of a bar is read from its four bytes. -/
theorem datetime_reads (minuteLevel : Bool) (l : Fixed 4) : ∃ d, Reads (getDatetime minuteLevel) l.1 d := by
  cases minuteLevel with
  | false => exact ⟨_, (u32_reads l).bind_pure⟩
  | true =>
    have hlow : (l.1.take 2).length = 2 := by
      rw [List.length_take, l.2]
      rfl
    have hhigh : (l.1.drop 2).length = 2 := by
      rw [List.length_drop, l.2]
    have h := (u16_reads ⟨l.1.take 2, hlow⟩).bind (f := fun zipDay => do
      let minutes ← u16
      return (⟨zipDay / 2 ^ 11 + 2004, zipDay % 2048 / 100, zipDay % 2048 % 100, minutes / 60,
        minutes % 60⟩ : Datetime)) (u16_reads ⟨l.1.drop 2, hhigh⟩).bind_pure
    rw [List.take_append_drop] at h
    exact ⟨_, h⟩

/-- A bar as it is sent. -/
structure BarRecord (minuteLevel : Bool) where
  date : Fixed 4
  «open» : PriceBytes
  close : PriceBytes
  high : PriceBytes
  low : PriceBytes
  vol : Fixed 4
  amount : Fixed 4
  legal : ((getDatetime minuteLevel).readAt date.1 0).1.isLegal

def BarRecord.bytes {minuteLevel : Bool} (r : BarRecord minuteLevel) : Bytes :=
  r.date.1 ++ (r.open.bytes ++ (r.close.bytes ++ (r.high.bytes ++ (r.low.bytes ++ (r.vol.1 ++ r.amount.1)))))

variable {F : Type} [BinaryFloat F] {minuteLevel : Bool}

theorem BarRecord.date_reads (r : BarRecord minuteLevel) :
    ∃ d, Reads (getDatetime minuteLevel) r.date.1 d ∧ d.isLegal := by
  obtain ⟨d, hd⟩ := datetime_reads minuteLevel r.date
  refine ⟨d, hd, ?_⟩
  have hread := hd [] []
  have hlegal := r.legal
  rw [List.nil_append, List.append_nil, List.length_nil] at hread
  rwa [hread] at hlegal

theorem barFormat : Format barGuard (readBar (F := F) minuteLevel) (@BarRecord.bytes minuteLevel) where
  whole r s := by
    obtain ⟨d, hd, hlegal⟩ := r.date_reads
    obtain ⟨o, ho⟩ := price_reads r.open
    obtain ⟨c, hc⟩ := price_reads r.close
    obtain ⟨h, hh⟩ := price_reads r.high
    obtain ⟨l, hl⟩ := price_reads r.low
    refine hd.bind_exists ?_
    rw [if_pos hlegal]
    exact ho.bind_exists (hc.bind_exists (hh.bind_exists (hl.bind_exists
      ((u32_reads r.vol).bind_exists ⟨_, (u32_reads r.amount).bind_pure⟩))))
  guarded r := by
    have ho := r.open.length_pos
    have hc := r.close.length_pos
    have hh := r.high.length_pos
    have hl := r.low.length_pos
    simp only [barGuard, BarRecord.bytes, List.length_append, r.date.2, r.vol.2, r.amount.2]
    omega
  cut r s n before hn := by
    obtain ⟨d, hd, hlegal⟩ := r.date_reads
    -- the date is within the guard, and nothing after it is checked
    rw [BarRecord.bytes, take_fixed r.date (le_trans (by decide) hn)]
    generalize List.take (n - 4) _ = rest
    have hread := hd before rest
    rw [List.append_assoc] at hread
    rw [readBar, readAt_bind, hread, if_pos hlegal]
    exact Option.some_ne_none _

/-! ## Quotes -/

/-- One level of the book as it is sent. -/
structure LevelRecord where
  bidDiff : PriceBytes
  askDiff : PriceBytes
  bidVol : PriceBytes
  askVol : PriceBytes

def LevelRecord.bytes (r : LevelRecord) : Bytes :=
  r.bidDiff.bytes ++ (r.askDiff.bytes ++ (r.bidVol.bytes ++ r.askVol.bytes))

theorem level_reads (priceRaw : BitVec 64) (coefficient : F) (r : LevelRecord) :
    ∃ v, Reads (readLevel priceRaw coefficient) r.bytes v := by
  obtain ⟨_, hb⟩ := price_reads r.bidDiff
  obtain ⟨_, ha⟩ := price_reads r.askDiff
  obtain ⟨_, hbv⟩ := price_reads r.bidVol
  obtain ⟨_, hav⟩ := price_reads r.askVol
  exact hb.bind_exists (ha.bind_exists (hbv.bind_exists ⟨_, hav.bind_pure⟩))

/-- A quote as it is sent. -/
structure QuoteRecord where
  market : Fixed 1
  code : Fixed 6
  active1 : Fixed 2
  price : PriceBytes
  lastClose : PriceBytes
  «open» : PriceBytes
  high : PriceBytes
  low : PriceBytes
  servertime : PriceBytes
  reversed1 : PriceBytes
  vol : PriceBytes
  curVol : PriceBytes
  amount : Fixed 4
  sVol : PriceBytes
  bVol : PriceBytes
  reversed2 : PriceBytes
  reversed3 : PriceBytes
  levels : { l : List LevelRecord // l.length = 5 }
  reversed4 : Fixed 2
  reversed5To8 : { l : List PriceBytes // l.length = 4 }
  reversed9 : Fixed 2
  active2 : Fixed 2

def QuoteRecord.bytes (r : QuoteRecord) : Bytes :=
  r.market.1 ++ (r.code.1 ++ (r.active1.1 ++ (r.price.bytes ++ (r.lastClose.bytes ++ (r.open.bytes ++
    (r.high.bytes ++ (r.low.bytes ++ (r.servertime.bytes ++ (r.reversed1.bytes ++ (r.vol.bytes ++
    (r.curVol.bytes ++ (r.amount.1 ++ (r.sVol.bytes ++ (r.bVol.bytes ++ (r.reversed2.bytes ++
    (r.reversed3.bytes ++ (r.levels.1.flatMap LevelRecord.bytes ++ (r.reversed4.1 ++
    (r.reversed5To8.1.flatMap PriceBytes.bytes ++ (r.reversed9.1 ++ r.active2.1))))))))))))))))))))

theorem quote_reads (r : QuoteRecord) : ∃ q : Quote F, Reads readQuote r.bytes q := by
  refine exists_bind ⟨_, slice_reads r.market⟩ fun _ => exists_bind ⟨_, slice_reads r.code⟩ fun _ =>
    exists_bind ⟨_, Reads.skip r.active1.2⟩ fun _ => ?_
  refine exists_bind (price_reads r.price) fun _ => exists_bind (price_reads r.lastClose) fun _ =>
    exists_bind (price_reads r.open) fun _ => exists_bind (price_reads r.high) fun _ =>
    exists_bind (price_reads r.low) fun _ => exists_bind (price_reads r.servertime) fun _ =>
    exists_bind (price_reads r.reversed1) fun _ => exists_bind (price_reads r.vol) fun _ =>
    exists_bind (price_reads r.curVol) fun _ => exists_bind ⟨_, u32_reads r.amount⟩ fun _ => ?_
  refine exists_bind (price_reads r.sVol) fun _ => exists_bind (price_reads r.bVol) fun _ =>
    exists_bind (price_reads r.reversed2) fun _ => exists_bind (price_reads r.reversed3) fun _ => ?_
  -- the levels are five readers of one kind, and so are the last four numbers
  have hlevels := r.levels.2
  have hreversed := r.reversed5To8.2
  refine exists_bind (Reads.mapM_exists (level_reads _ _) _ _ (by simp [hlevels])) fun _ =>
    exists_bind ⟨_, Reads.skip r.reversed4.2⟩ fun _ => ?_
  exact exists_bind (Reads.mapM_exists price_reads _ _ (by simp [hreversed])) fun _ =>
    exists_bind ⟨_, Reads.skip r.reversed9.2⟩ fun _ => ⟨_, (Reads.skip r.active2.2).bind_pure⟩

theorem length_flatMap_le {α : Type} {f : α → Bytes} {k : ℕ} (hf : ∀ a, k ≤ (f a).length) (l : List α) :
    k * l.length ≤ (l.flatMap f).length := by
  induction l with
  | nil => simp
  | cons a l ih =>
    have ha := hf a
    rw [List.flatMap_cons, List.length_append, List.length_cons]
    linarith

theorem LevelRecord.length_le (r : LevelRecord) : 4 ≤ r.bytes.length := by
  have h1 := r.bidDiff.length_pos
  have h2 := r.askDiff.length_pos
  have h3 := r.bidVol.length_pos
  have h4 := r.askVol.length_pos
  simp only [LevelRecord.bytes, List.length_append]
  omega

/-- A quote that is all there has almost twice the bytes that the loop asks for. -/
theorem QuoteRecord.length_le (r : QuoteRecord) : 56 ≤ r.bytes.length := by
  have hprices := fun p : PriceBytes => p.length_pos
  have hlevels := length_flatMap_le LevelRecord.length_le r.levels.1
  have hreversed := length_flatMap_le PriceBytes.length_pos r.reversed5To8.1
  rw [r.levels.2] at hlevels
  rw [r.reversed5To8.2] at hreversed
  simp only [QuoteRecord.bytes, List.length_append, r.market.2, r.code.2, r.active1.2, r.amount.2,
    r.reversed4.2, r.reversed9.2, r.active2.2]
  have h1 := hprices r.price
  have h2 := hprices r.lastClose
  have h3 := hprices r.open
  have h4 := hprices r.high
  have h5 := hprices r.low
  have h6 := hprices r.servertime
  have h7 := hprices r.reversed1
  have h8 := hprices r.vol
  have h9 := hprices r.curVol
  have h10 := hprices r.sVol
  have h11 := hprices r.bVol
  have h12 := hprices r.reversed2
  have h13 := hprices r.reversed3
  omega

/-- The reader of the loop over the quotes, which keeps nothing from one to the next. -/
theorem quoteFormat : Format quoteGuard (fun _ : Unit => return some ((← readQuote : Quote F), ()))
    QuoteRecord.bytes where
  whole r _ := by
    obtain ⟨q, hq⟩ := quote_reads (F := F) r
    exact ⟨_, hq.bind_pure⟩
  guarded r := le_trans (by decide) r.length_le
  cut r s n before hn := by
    rw [readAt_bind, readAt_pure]
    exact Option.some_ne_none _

/-! ## Whole responses -/

/-- A response body: a header, the number of the records, and the records. -/
def responseBody {ρ : Type} (header : Bytes) (bytes : ρ → Bytes) (rs : List ρ) : Bytes :=
  header ++ leBytes 2 rs.length ++ rs.flatMap bytes

/-- The body of a response with bars. -/
def barsBody (rs : List (BarRecord minuteLevel)) : Bytes := responseBody [] BarRecord.bytes rs

/-- The body of a response with quotes, after the two bytes in front. -/
def quotesBody (header : Fixed 2) (rs : List QuoteRecord) : Bytes :=
  responseBody header.1 QuoteRecord.bytes rs

theorem take_responseBody {ρ : Type} (header : Bytes) (bytes : ρ → Bytes) (rs : List ρ) {n : ℕ}
    (hn : header.length + 2 ≤ n) : (responseBody header bytes rs).take n =
      header ++ leBytes 2 rs.length ++ (rs.flatMap bytes).take (n - (header.length + 2)) := by
  have hlength : (header ++ leBytes 2 rs.length).length = header.length + 2 := by
    rw [List.length_append, length_leBytes]
  rw [responseBody, List.take_append, hlength, List.take_of_length_le (by omega)]

/-- The number of the records is read from a whole body or one that is cut after it. -/
theorem readU16_count (header rest : Bytes) {count : ℕ} (h : count < 65536) :
    readU16 (header ++ leBytes 2 count ++ rest) header.length = count := by
  have hread := readLe_within ⟨leBytes 2 count, length_leBytes 2 count⟩ header rest
  rw [ofLeBytes_leBytes 2 count h] at hread
  exact hread

/-- What a parser gives: the values of a prefix of the records, all of them within `n` bytes. -/
def FabricatesNothing {ρ α : Type} (bytes : ρ → Bytes) (rs : List ρ) (n : ℕ)
    (cut full : Except String (List α)) : Prop :=
  ∃ parsed values, cut = .ok parsed ∧ full = .ok values ∧ parsed <+: values ∧
    ∀ i < parsed.length, ((rs.take (i + 1)).flatMap bytes).length ≤ n

theorem fabricatesNothing_iff {ρ α σ : Type} {guard : ℕ} {read : σ → Cursor UInt8 (Option (α × σ))}
    {bytes : ρ → Bytes} (h : Format guard read bytes) (rs : List ρ) (s : σ) (before : Bytes) (n : ℕ) :
    FabricatesNothing bytes rs n
      (.ok (recordsAfter guard read rs.length s before ((rs.flatMap bytes).take n)))
      (.ok (recordsAfter guard read rs.length s before (rs.flatMap bytes))) ↔ Clean guard bytes rs n := by
  rw [← records_cut_iff h rs s before n]
  constructor
  · rintro ⟨parsed, values, hparsed, hvalues, hpre, hends⟩
    cases hparsed
    cases hvalues
    exact ⟨hpre, hends⟩
  · rintro ⟨hpre, hends⟩
    exact ⟨_, _, rfl, rfl, hpre, hends⟩

theorem parseSecurityBars_eq {count : ℕ} (hcount : count < 65536) (data : Bytes) :
    parseSecurityBars (F := F) (leBytes 2 count ++ data) minuteLevel =
      .ok (recordsAfter barGuard (readBar minuteLevel) count 0 (leBytes 2 count) data) := by
  have hlength := length_leBytes 2 count
  have hread := readU16_count [] data hcount
  rw [List.nil_append, List.length_nil] at hread
  have hlong : ¬ (leBytes 2 count ++ data).length < 2 := by
    rw [List.length_append]
    omega
  rw [parseSecurityBars, if_neg hlong, hread, recordsAfter, hlength]

theorem parseSecurityQuotes_eq (header : Fixed 2) {count : ℕ} (hcount : count < 65536) (data : Bytes) :
    parseSecurityQuotes (F := F) (header.1 ++ leBytes 2 count ++ data) =
      .ok (recordsAfter quoteGuard (fun _ : Unit => return some ((← readQuote : Quote F), ())) count ()
        (header.1 ++ leBytes 2 count) data) := by
  have hlength : (header.1 ++ leBytes 2 count).length = 4 := by
    rw [List.length_append, header.2, length_leBytes]
  have hread := readU16_count header.1 data hcount
  rw [header.2] at hread
  have hlong : ¬ (header.1 ++ leBytes 2 count ++ data).length < 4 := by
    rw [List.length_append]
    omega
  rw [parseSecurityQuotes, if_neg hlong, hread, recordsAfter, hlength]

/-- **A response that is cut off** gives a prefix of what it held, each record of it whole, exactly if
none of its records is cut after the bytes that the loop asks for. -/
theorem responses_cut_iff {F : Type} [BinaryFloat F] :
    (∀ (minuteLevel : Bool) (rs : List (BarRecord minuteLevel)) (n : ℕ), rs.length < 65536 → 2 ≤ n →
      (FabricatesNothing BarRecord.bytes rs (n - 2)
          (parseSecurityBars (F := F) ((barsBody rs).take n) minuteLevel)
          (parseSecurityBars (barsBody rs) minuteLevel) ↔ Clean barGuard BarRecord.bytes rs (n - 2))) ∧
    ∀ (header : Fixed 2) (rs : List QuoteRecord) (n : ℕ), rs.length < 65536 → 4 ≤ n →
      (FabricatesNothing QuoteRecord.bytes rs (n - 4)
          (parseSecurityQuotes (F := F) ((quotesBody header rs).take n))
          (parseSecurityQuotes (quotesBody header rs)) ↔ Clean quoteGuard QuoteRecord.bytes rs (n - 4)) := by
  constructor
  · intro minuteLevel rs n hcount hn
    have hcut := take_responseBody [] BarRecord.bytes rs (n := n) hn
    simp only [List.nil_append, List.length_nil, Nat.zero_add] at hcut
    have hfull : barsBody rs = leBytes 2 rs.length ++ rs.flatMap BarRecord.bytes := rfl
    rw [barsBody, hcut, ← barsBody, hfull, parseSecurityBars_eq hcount, parseSecurityBars_eq hcount]
    exact fabricatesNothing_iff barFormat rs 0 _ (n - 2)
  · intro header rs n hcount hn
    have hcut := take_responseBody header.1 QuoteRecord.bytes rs (n := n) (by rw [header.2]; exact hn)
    rw [header.2] at hcut
    have hfull : quotesBody header rs = header.1 ++ leBytes 2 rs.length ++ rs.flatMap QuoteRecord.bytes := rfl
    rw [quotesBody, hcut, ← quotesBody, hfull, parseSecurityQuotes_eq header hcount,
      parseSecurityQuotes_eq header hcount]
    exact fabricatesNothing_iff quoteFormat rs () _ (n - 4)

/-- A price of one byte. -/
def onePrice : PriceBytes where
  init := []
  last := 1
  more := by simp
  ends := rfl

/-- A bar of 17 bytes, whose first price has two. -/
def longBar : BarRecord false where
  date := ⟨leBytes 4 20240102, rfl⟩
  «open» := { init := [0x81], last := 1, more := by decide +kernel, ends := rfl }
  close := onePrice
  high := onePrice
  low := onePrice
  vol := ⟨[0, 0, 0, 0x40], rfl⟩
  amount := ⟨[0, 0, 0, 0x40], rfl⟩
  legal := by decide

theorem one_bar_cut : FabricatesNothing BarRecord.bytes [longBar] (18 - 2)
    (parseSecurityBars (F := ℚ) ((barsBody [longBar]).take 18) false)
    (parseSecurityBars (barsBody [longBar]) false) ↔ Clean barGuard BarRecord.bytes [longBar] (18 - 2) :=
  responses_cut_iff.1 false [longBar] 18 (by decide) (by decide)

/-- The last byte of the amount is missing, and the bar is there all the same. -/
theorem bar_made_up : ¬ ∀ (minuteLevel : Bool) (rs : List (BarRecord minuteLevel)) (n : ℕ),
    rs.length < 65536 → 2 ≤ n → FabricatesNothing BarRecord.bytes rs (n - 2)
      (parseSecurityBars (F := ℚ) ((barsBody rs).take n) minuteLevel)
      (parseSecurityBars (barsBody rs) minuteLevel) := by
  intro h
  obtain ⟨parsed, values, hparsed, -, -, hends⟩ := h false [longBar] 18 (by decide) (by decide)
  have hone : (parseSecurityBars (F := ℚ) ((barsBody [longBar]).take 18) false).toOption.map List.length =
      some 1 := by decide
  rw [hparsed] at hone
  have hlength : parsed.length = 1 := Option.some.inj hone
  have hend := hends 0 (by rw [hlength]; exact Nat.one_pos)
  revert hend
  decide

end Astock.Tdx
