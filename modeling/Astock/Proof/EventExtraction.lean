import Astock.Lib.Sorted
import Astock.Spec.EventExtraction

/-!
# The quotes of an extracted event

* `contains_of_find`: what a pattern without a full stop finds in the searched text is in the title
  or in the summary.
* `fieldName_injOn`: a field has one row of evidence.
* `textFields_supported`: the quotes of the amount, the quantity, the baseline and the region are
  these values.
* `dates_supported_iff`: the quotes of the two dates are the first two matches of the text; they
  denote the dates when these come first and in order.
* `quotes_support_iff`: **the quotes support the fields of an event exactly when the text gives its
  dates in order.**
-/

namespace Astock.EventIntelligence

open Regex

variable {digits : UnicodeDigits} {shortHash : String → String} {input : EventExtractionInput}
  {event : StructuredEvent}

/-! ## What the quotes have to show -/

/-- The date that the date pattern reads in a quote. -/
def quotedDate (digits : UnicodeDigits) (quote : String) : Option ℤ :=
  ((DATE digits).find quote).bind captureDate

/-- A field has evidence with a quote from the title or the summary that means what it should. -/
def Supported (input : EventExtractionInput) (event : StructuredEvent) (field : String)
    (means : String → Prop) : Prop :=
  ∃ row ∈ event.evidence, row.fieldName = field ∧ ∃ quote, row.quoteOriginal = some quote ∧
    (Text.contains input.title quote ∨ Text.contains input.factualSummary quote) ∧ means quote

/-- Every quote supports its field. -/
structure QuotesSupport (digits : UnicodeDigits) (input : EventExtractionInput)
    (event : StructuredEvent) : Prop where
  amountText : ∀ v, event.amountText = some v → Supported input event "amount_text" (· = v)
  quantityText : ∀ v, event.quantityText = some v → Supported input event "quantity_text" (· = v)
  baselinePeriod : ∀ v, event.baselinePeriod = some v →
    Supported input event "baseline_period" (· = v)
  region : ∀ v, event.region = some v → Supported input event "region" (· = v)
  startsAt : ∀ t, event.startsAt = some t →
    Supported input event "starts_at" fun quote => quotedDate digits quote = some t
  endsAt : ∀ t, event.endsAt = some t →
    Supported input event "ends_at" fun quote => quotedDate digits quote = some t

/-- What the date pattern matches in the text, from left to right; a match that is no date has no
value. -/
def textDates (digits : UnicodeDigits) (input : EventExtractionInput) : List (Option ℤ) :=
  ((DATE digits).findIter input.combined).map captureDate

/-- No date is earlier than the first, and none but the first is earlier than the second. -/
def DatesInOrder (dates : List (Option ℤ)) : Prop :=
  ∀ v, some v ∈ dates → ∃ u, dates[0]? = some (some u) ∧ u ≤ v ∧
    (u < v → ∃ w, dates[1]? = some (some w) ∧ u < w ∧ w ≤ v)

/-! ## The searched text -/

/-- A text without a full stop that is in the searched text is in one of its parts. -/
theorem contains_of_infix {w : List Char} (hstop : '。' ∉ w) (h : w <:+: input.combined.toList) :
    Text.contains input.title (String.ofList w) ∨
      Text.contains input.factualSummary (String.ofList w) := by
  have hcombined : input.combined.toList =
      input.title.toList ++ '。' :: input.factualSummary.toList := by
    simp [EventExtractionInput.combined, String.toList_append, toString]
  obtain ⟨before, after, heq⟩ := h
  rw [hcombined, List.append_assoc] at heq
  simp only [Text.contains_iff, String.toList_ofList]
  rcases List.append_eq_append_iff.1 heq with ⟨mid, htitle, hrest⟩ | ⟨mid, hbefore, hrest⟩
  · -- the match starts in the title, and ends there since the full stop is not in it
    rcases List.append_eq_append_iff.1 hrest with ⟨mid', hmid, -⟩ | ⟨mid', hw, hstart⟩
    · refine .inl ⟨before, mid', ?_⟩
      rw [htitle, hmid, List.append_assoc]
    · cases mid' with
      | nil =>
        refine .inl ⟨before, [], ?_⟩
        rw [htitle, hw, List.append_nil, List.append_nil]
      | cons c mid' =>
        obtain ⟨rfl, -⟩ := List.cons.inj hstart
        refine absurd ?_ hstop
        rw [hw]
        exact List.mem_append_right _ List.mem_cons_self
  · cases mid with
    | nil =>
      cases w with
      | nil => exact .inl ⟨[], input.title.toList, rfl⟩
      | cons c w =>
        obtain ⟨rfl, -⟩ := List.cons.inj hrest
        exact absurd List.mem_cons_self hstop
    | cons c mid =>
      obtain ⟨-, hsummary⟩ := List.cons.inj hrest
      exact .inr ⟨mid, after, (List.append_assoc _ _ _).trans hsummary.symm⟩

theorem avoids_measured {units : List String} (h : ∀ unit ∈ units, '。' ∉ unit.toList) :
    (measured digits units).Avoids '。' := by
  have hdigit := digits.fullStop
  have hdot : (lit ".").Avoids '。' := avoids_lit (by decide)
  have hspace : Text.isWhiteSpace '。' = false := by decide
  refine ⟨⟨hdigit, ⟨hdot, hdigit⟩, trivial⟩, hspace, avoids_oneOf fun r hr => ?_⟩
  obtain ⟨unit, hunit, rfl⟩ := List.mem_map.1 hr
  exact avoids_lit (h unit hunit)

theorem avoids_AMOUNT : (AMOUNT digits).Avoids '。' := avoids_measured (by decide)

theorem avoids_QUANTITY : (QUANTITY digits).Avoids '。' := avoids_measured (by decide)

theorem avoids_DATE : (DATE digits).Avoids '。' := by
  have hdigit := digits.fullStop
  have hcentury : (lit "20").Avoids '。' := avoids_lit (by decide)
  have hday : (lit "日").Avoids '。' := avoids_lit (by decide)
  exact ⟨⟨hcentury, hdigit⟩, avoids_char (by decide), hdigit, avoids_char (by decide), hdigit, hday,
    trivial⟩

theorem minLength_DATE : (DATE digits).minLength = 8 := rfl

theorem avoids_BASELINE : (BASELINE digits).Avoids '。' := by
  have hword : ∀ s : String, '。' ∉ s.toList → (lit s).Avoids '。' := fun s h => avoids_lit h
  refine ⟨⟨hword _ (by decide), digits.fullStop, hword _ (by decide), avoids_oneOf fun r hr => ?_,
    trivial⟩, avoids_oneOf fun r hr => ?_⟩
  · simp only [List.mem_cons, List.not_mem_nil, or_false] at hr
    rcases hr with rfl | rfl | rfl | rfl
    · exact ⟨hword _ (by decide), avoids_char (by decide), hword _ (by decide)⟩
    · exact hword _ (by decide)
    · exact hword _ (by decide)
    · exact hword _ (by decide)
  · obtain ⟨word, hmem, rfl⟩ := List.mem_map.1 hr
    exact hword word ((by decide : ∀ word ∈ ["去年同期", "上年同期", "环比", "同比"],
      '。' ∉ word.toList) word hmem)

/-- **What a pattern finds** is in the title or in the summary. -/
theorem contains_of_find {pattern : Regex} {m : Match} (havoids : pattern.Avoids '。')
    (h : m ∈ pattern.findIter input.combined) :
    Text.contains input.title (String.ofList m.text) ∨
      Text.contains input.factualSummary (String.ofList m.text) :=
  contains_of_infix (not_mem_of_find havoids h) (mem_findIter h).1

/-! ## Dates in order -/

theorem mem_validDates {t : ℤ} :
    t ∈ validDates digits input.combined ↔ some t ∈ textDates digits input := by
  rw [validDates, Sorted.mem_sortedValues, List.mem_filterMap, textDates, List.mem_map]

/-- The first two values are the first two matches when the text gives its dates in order. -/
theorem datesInOrder_iff {dates : List ℤ} {given : List (Option ℤ)} (hlt : dates.Pairwise (· < ·))
    (hmem : ∀ t, t ∈ dates ↔ some t ∈ given) :
    ((∀ t, dates[0]? = some t → given[0]? = some (some t)) ∧
      ∀ t, dates[1]? = some t → given[1]? = some (some t)) ↔ DatesInOrder given := by
  cases dates with
  | nil =>
    refine ⟨fun _ v hv => absurd ((hmem v).2 hv) List.not_mem_nil, fun _ => ⟨?_, ?_⟩⟩
    · intro t ht
      cases ht
    · intro t ht
      cases ht
  | cons u rest =>
    obtain ⟨hu, hrest⟩ := List.pairwise_cons.1 hlt
    constructor
    · rintro ⟨hfirst, hsecond⟩ v hv
      refine ⟨u, hfirst u rfl, ?_, fun huv => ?_⟩
      · rcases List.mem_cons.1 ((hmem v).2 hv) with rfl | hv
        · exact le_refl _
        · exact (hu v hv).le
      · have hv' : v ∈ rest := List.mem_of_ne_of_mem huv.ne' ((hmem v).2 hv)
        cases rest with
        | nil => cases hv'
        | cons w rest =>
          refine ⟨w, hsecond w rfl, hu w List.mem_cons_self, ?_⟩
          rcases List.mem_cons.1 hv' with rfl | hv'
          · exact le_refl _
          · exact ((List.pairwise_cons.1 hrest).1 v hv').le
    · intro h
      -- the first match is a date, and no other date is earlier
      have hfirst : given[0]? = some (some u) := by
        obtain ⟨first, hgiven, hle, -⟩ := h u ((hmem u).1 List.mem_cons_self)
        rcases List.mem_cons.1 ((hmem first).2 (List.mem_of_getElem? hgiven)) with rfl | hmore
        · exact hgiven
        · exact absurd (hu first hmore) (not_lt.2 hle)
      refine ⟨fun t ht => ?_, fun t ht => ?_⟩
      · obtain rfl := Option.some.inj ht
        exact hfirst
      · cases rest with
        | nil => cases ht
        | cons w rest =>
          obtain rfl := Option.some.inj ht
          obtain ⟨first, hgiven, -, hmore⟩ :=
            h w ((hmem w).1 (List.mem_cons_of_mem u List.mem_cons_self))
          obtain rfl : u = first := Option.some.inj (Option.some.inj (hfirst.symm.trans hgiven))
          obtain ⟨second, hsecond, hlt, hle⟩ := hmore (hu w List.mem_cons_self)
          rcases List.mem_cons.1 ((hmem second).2 (List.mem_of_getElem? hsecond)) with rfl | hin
          · exact absurd hlt (lt_irrefl _)
          rcases List.mem_cons.1 hin with rfl | hin
          · exact hsecond
          · exact absurd ((List.pairwise_cons.1 hrest).1 second hin) (not_lt.2 hle)

/-! ## The rows of evidence -/

variable {output : StructuredEvent} {field : String} {quote : Option String}

/-- **A field has one row of evidence.** -/
theorem fieldNames_nodup :
    ((evidenceRows digits shortHash input output).map (·.fieldName)).Nodup := by
  have hnames : ((evidenceRows digits shortHash input output).map (·.fieldName)) =
      ["title", "kind", "lifecycle"] ++
        ((factFields digits input output).filter (·.2.1)).map (·.1) ++
      ["reversibility", "impact_horizon", "catalyst_path", "invalidation_conditions"] := by
    simp only [evidenceRows, List.map_append, List.map_map]
    rfl
  have hsublist : List.Sublist (((factFields digits input output).filter (·.2.1)).map (·.1))
      ["subjects", "amount_text", "quantity_text", "unit_original", "currency_original",
        "baseline_period", "starts_at", "ends_at", "region", "conditions", "official_effective"] :=
    (List.filter_sublist (p := (·.2.1)) (l := factFields digits input output)).map (·.1)
  rw [hnames]
  refine List.Nodup.sublist (((hsublist.append_left _).append_right _)) ?_
  decide

theorem fact_mem (shortHash : String → String) (h : (field, true, quote) ∈ factFields digits input output) :
    ∃ row ∈ evidenceRows digits shortHash input output, row.fieldName = field ∧
      row.quoteOriginal = quote := by
  refine ⟨_, List.mem_append_left _ (List.mem_append_right _
    (List.mem_map.2 ⟨_, List.mem_filter.2 ⟨h, rfl⟩, rfl⟩)), rfl, rfl⟩

/-- What an accepted input gives. -/
theorem extract_ok (h : extractStructuredEvent digits shortHash input = .ok event) :
    ∃ missing, event =
      { eventFields digits shortHash input with
        evidence := evidenceRows digits shortHash input (eventFields digits shortHash input)
        missingFields := missing } := by
  rw [extractStructuredEvent] at h
  generalize eventFields digits shortHash input = fields at h ⊢
  split at h
  · cases h
  · obtain ⟨-, -, h⟩ := Prog.except_bind_ok h
    exact ⟨_, (Except.ok.inj h).symm⟩

/-- **A field is supported** when the quote of its row means what it should. -/
theorem supported_iff {means : String → Prop} {q : String}
    (hevidence : event.evidence = evidenceRows digits shortHash input output)
    (hfact : (field, true, some q) ∈ factFields digits input output)
    (hin : Text.contains input.title q ∨ Text.contains input.factualSummary q) :
    Supported input event field means ↔ means q := by
  obtain ⟨row, hrow, hfield, hquote⟩ := fact_mem shortHash hfact
  constructor
  · rintro ⟨other, hother, hsame, quote, hq, -, hmeans⟩
    rw [hevidence] at hother
    obtain rfl : other = row :=
      List.inj_on_of_nodup_map fieldNames_nodup hother hrow (hsame.trans hfield.symm)
    obtain rfl : q = quote := Option.some.inj (hquote.symm.trans hq)
    exact hmeans
  · intro hmeans
    exact ⟨row, hevidence ▸ hrow, hfield, q, hquote, hin, hmeans⟩

/-! ## Extracted events -/

section Fields

variable (digits shortHash input)

/-- The text that a pattern finds first. -/
theorem contains_of_firstFind {pattern : Regex} {v : String} (havoids : pattern.Avoids '。')
    (h : (pattern.find input.combined).map (fun m => String.ofList m.text) = some v) :
    Text.contains input.title v ∨ Text.contains input.factualSummary v := by
  obtain ⟨m, hm, rfl⟩ := Option.map_eq_some_iff.1 h
  exact contains_of_find havoids (List.mem_of_mem_head? hm)

theorem contains_of_region {v : String}
    (h : (eventFields digits shortHash input).region = some v) :
    Text.contains input.title v ∨ Text.contains input.factualSummary v := by
  have hmem := List.mem_of_find?_eq_some h
  have hcontains := List.find?_some h
  have hstop : ∀ region ∈ ["中国", "美国", "欧盟", "日本", "韩国", "东南亚", "全球"],
      '。' ∉ region.toList := by decide
  have hin := contains_of_infix (hstop v hmem) (Text.contains_iff.1 hcontains)
  rwa [String.ofList_toList] at hin

/-- **The quotes of the texts** are the texts. -/
theorem textFields_supported (h : extractStructuredEvent digits shortHash input = .ok event) :
    (∀ v, event.amountText = some v → Supported input event "amount_text" (· = v)) ∧
    (∀ v, event.quantityText = some v → Supported input event "quantity_text" (· = v)) ∧
    (∀ v, event.baselinePeriod = some v → Supported input event "baseline_period" (· = v)) ∧
    ∀ v, event.region = some v → Supported input event "region" (· = v) := by
  obtain ⟨missing, rfl⟩ := extract_ok h
  set output := eventFields digits shortHash input with houtput
  have hsupported : ∀ (field v : String), (field, true, some v) ∈ factFields digits input output →
      Text.contains input.title v ∨ Text.contains input.factualSummary v →
      Supported input { output with
        evidence := evidenceRows digits shortHash input output
        missingFields := missing } field (· = v) :=
    fun field v hfact hin => (supported_iff rfl hfact hin).2 rfl
  refine ⟨fun v hv => ?_, fun v hv => ?_, fun v hv => ?_, fun v hv => ?_⟩
  · refine hsupported _ v ?_ (contains_of_firstFind input avoids_AMOUNT hv)
    have hv' : output.amountText = some v := hv
    simp [factFields, hv']
  · refine hsupported _ v ?_ (contains_of_firstFind input avoids_QUANTITY hv)
    have hv' : output.quantityText = some v := hv
    simp [factFields, hv']
  · refine hsupported _ v ?_ (contains_of_firstFind input avoids_BASELINE hv)
    have hv' : output.baselinePeriod = some v := hv
    simp [factFields, hv']
  · refine hsupported _ v ?_ (contains_of_region digits shortHash input hv)
    have hv' : output.region = some v := hv
    simp [factFields, hv']

/-- **The quote of a date** is one of the matches of the text, and means what that match does. -/
theorem date_supported_iff {n : ℕ} {t : ℤ}
    (hevidence : event.evidence =
      evidenceRows digits shortHash input (eventFields digits shortHash input))
    (hfact : (field, true,
        (((DATE digits).findIter input.combined)[n]?).map fun m => String.ofList m.text) ∈
      factFields digits input (eventFields digits shortHash input))
    (hn : n < ((DATE digits).findIter input.combined).length) :
    Supported input event field (fun quote => quotedDate digits quote = some t) ↔
      (textDates digits input)[n]? = some (some t) := by
  have hm := List.getElem?_eq_getElem hn
  set m := ((DATE digits).findIter input.combined)[n] with hdef
  have hmem : m ∈ (DATE digits).findIter input.combined := List.getElem_mem hn
  rw [hm, Option.map_some] at hfact
  rw [supported_iff hevidence hfact (contains_of_find avoids_DATE hmem), quotedDate,
    find_self (minLength_DATE ▸ Nat.succ_pos 7) hmem, textDates, List.getElem?_map, hm]
  exact ⟨fun h => congrArg some h, fun h => Option.some.inj h⟩

end Fields

theorem length_textDates :
    (textDates digits input).length = ((DATE digits).findIter input.combined).length :=
  List.length_map _

theorem validDates_pairwise : (validDates digits input.combined).Pairwise (· < ·) :=
  Sorted.sortedValues_pairwise _

/-- There is a match for each of the two dates. -/
theorem match_of_date {n : ℕ} {t : ℤ} (hn : n ≤ 1)
    (h : (validDates digits input.combined)[n]? = some t) :
    n < ((DATE digits).findIter input.combined).length := by
  rw [← length_textDates]
  obtain ⟨hlength, hget⟩ := List.getElem?_eq_some_iff.1 h
  have hmem : ∀ k (hk : k < (validDates digits input.combined).length),
      some (validDates digits input.combined)[k] ∈ textDates digits input :=
    fun k hk => mem_validDates.1 (List.getElem_mem hk)
  by_contra hfew
  have hfirst := List.length_pos_of_mem (hmem n hlength)
  obtain rfl : n = 1 := by omega
  -- one match gives one date only
  obtain ⟨d, hd⟩ := List.length_eq_one_iff.1 (show (textDates digits input).length = 1 by omega)
  have hzero := hmem 0 (by omega)
  have hone := hmem 1 hlength
  rw [hd, List.mem_singleton] at hzero hone
  have heq := Option.some.inj (hzero.trans hone.symm)
  exact (List.pairwise_iff_getElem.1 validDates_pairwise 0 1 (by omega) hlength (by omega)).ne heq

/-- **The quotes of the two dates** mean the dates when the text gives its dates in order. -/
theorem dates_supported_iff (h : extractStructuredEvent digits shortHash input = .ok event) :
    ((∀ t, event.startsAt = some t →
        Supported input event "starts_at" fun quote => quotedDate digits quote = some t) ∧
      ∀ t, event.endsAt = some t →
        Supported input event "ends_at" fun quote => quotedDate digits quote = some t) ↔
      DatesInOrder (textDates digits input) := by
  obtain ⟨missing, rfl⟩ := extract_ok h
  rw [← datesInOrder_iff validDates_pairwise fun t => mem_validDates]
  refine and_congr (forall₂_congr fun t ht => ?_) (forall₂_congr fun t ht => ?_)
  · have ht' : (eventFields digits shortHash input).startsAt = some t := ht
    refine date_supported_iff digits shortHash input rfl ?_ (match_of_date (by omega) ht)
    simp [factFields, ht']
  · have ht' : (eventFields digits shortHash input).endsAt = some t := ht
    refine date_supported_iff digits shortHash input rfl ?_ (match_of_date (by omega) ht)
    simp [factFields, ht']

/-- **Quotes support their fields** exactly when the text gives its dates in order: the first match of
the date pattern is its earliest date, and the second match is the next one if there is another. -/
theorem quotes_support_iff (digits : UnicodeDigits) (shortHash : String → String)
    (input : EventExtractionInput) (event : StructuredEvent)
    (h : extractStructuredEvent digits shortHash input = .ok event) :
    QuotesSupport digits input event ↔ DatesInOrder (textDates digits input) := by
  obtain ⟨hamount, hquantity, hbaseline, hregion⟩ := textFields_supported digits shortHash input h
  rw [← dates_supported_iff h]
  exact ⟨fun hall => ⟨hall.startsAt, hall.endsAt⟩,
    fun hdates => ⟨hamount, hquantity, hbaseline, hregion, hdates.1, hdates.2⟩⟩

/-- The digits of a table that has no more than the ASCII ones. -/
def asciiDigits : UnicodeDigits where
  isDigit := Char.isDigit
  ascii := fun _ h => h
  fullStop := by decide

/-- A contract that is effective on a day and was signed on another. -/
def contract (effective signed : String) : EventExtractionInput where
  sourceRevisionId := "rev:1"
  sourceVersionId := none
  title := effective ++ "生效"
  factualSummary := signed ++ "签约"
  sourceIsPrimary := true
  firstSeenAt := 0
  subjects := []

theorem signed_later : ∃ event,
    extractStructuredEvent asciiDigits id (contract "2026年3月15日" "2026年9月1日") = .ok event ∧
      (QuotesSupport asciiDigits (contract "2026年3月15日" "2026年9月1日") event ↔
        DatesInOrder (textDates asciiDigits (contract "2026年3月15日" "2026年9月1日"))) := by
  have hok : (extractStructuredEvent asciiDigits id
      (contract "2026年3月15日" "2026年9月1日")).toOption.isSome = true := by decide
  cases hextract : extractStructuredEvent asciiDigits id (contract "2026年3月15日" "2026年9月1日") with
  | error e =>
    rw [hextract] at hok
    cases hok
  | ok event => exact ⟨event, rfl, quotes_support_iff _ _ _ _ hextract⟩

/-- Signed in March and effective in September: the event starts in March, and September is quoted for
it. -/
theorem signed_before : ∃ event,
    extractStructuredEvent asciiDigits id (contract "2026年9月1日" "2026年3月15日") = .ok event ∧
      ¬ QuotesSupport asciiDigits (contract "2026年9月1日" "2026年3月15日") event := by
  have hdates : textDates asciiDigits (contract "2026年9月1日" "2026年3月15日") =
      [some 1788220800, some 1773532800] := by decide +kernel
  have hok : (extractStructuredEvent asciiDigits id
      (contract "2026年9月1日" "2026年3月15日")).toOption.isSome = true := by decide +kernel
  cases hextract : extractStructuredEvent asciiDigits id (contract "2026年9月1日" "2026年3月15日") with
  | error e =>
    rw [hextract] at hok
    cases hok
  | ok event =>
    refine ⟨event, rfl, fun hall => ?_⟩
    have horder := (dates_supported_iff hextract).1 ⟨hall.startsAt, hall.endsAt⟩
    rw [hdates] at horder
    obtain ⟨u, hu, hle, -⟩ := horder 1773532800 (List.mem_cons_of_mem _ List.mem_cons_self)
    obtain rfl := Option.some.inj (Option.some.inj hu)
    exact absurd hle (by decide)

end Astock.EventIntelligence
