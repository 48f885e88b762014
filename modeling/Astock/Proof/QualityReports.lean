import Astock.Spec.Quality

/-!
# What quality reports keep

The verdict of a summary is worked out again when it is loaded, and the reports are made of the newest
rows of all datasets.

* `reloaded_summary_iff`: when a loaded summary is the recorded one.
* `recent_stored`: what a query returns of what was recorded.
* `readsBack_iff`: all returned summaries are the recorded ones exactly if no observation that a query can
  return has flags for information alone.
* `reports_map`, `reports_sortByKey`: the reports depend neither on the verdicts nor on the order.
* `reports_take_iff`: the reports on a page are those on all rows exactly if the page holds all of them.
* `quality_reports_iff`: **what is recorded is read back and reported**, exactly if both hold and no window
  has more rows than a page.
-/

namespace Astock.Quality

variable {o : QualityObservation} {obs rows : List QualityObservation} {dataset : Option DatasetKind}
  {provider : Option String} {limit : ℕ}

/-! ## Verdicts -/

/-- The summary was produced by `evaluate`. -/
def QualityObservation.Evaluated (o : QualityObservation) : Prop :=
  ∃ dataset ageSecs inTradingSession flags,
    o.summary = Summary.evaluate dataset ageSecs inTradingSession flags

/-- There are flags, and all are for information. -/
def Summary.InfoOnly (summary : Summary) : Prop :=
  summary.qualityFlags ≠ [] ∧ ∀ flag ∈ summary.qualityFlags, flag.severity = .info

/-- The dataset is that of the summary, and the flags are not for information alone. -/
structure QualityObservation.Plain (o : QualityObservation) : Prop where
  dataset : o.dataset = o.summary.dataset
  flags : ¬ o.summary.InfoOnly

/-- What is loaded of an observation. -/
def QualityObservation.reloaded (o : QualityObservation) : QualityObservation :=
  { (o.row 0).load with observationId := o.observationId }

/-- The verdict on flags and freshness, as a summary is evaluated. -/
def ceilingOf (freshness : FreshnessState) (flags : List Flag) : ConfidenceCeiling :=
  if flags.any (·.severity = .blocking) then .blocked
  else if freshness = .stale || flags.any (·.severity = .warning) then .medium else .high

/-- Stale data carry a warning. -/
theorem evaluate_stale (kind : DatasetKind) (ageSecs : UInt64) (inTradingSession : Bool) (flags : List Flag)
    (h : (Summary.evaluate kind ageSecs inTradingSession flags).freshness = .stale) :
    ∃ flag ∈ (Summary.evaluate kind ageSecs inTradingSession flags).qualityFlags,
      flag.severity = .warning := by
  have hfreshness : (FreshnessPolicy.forDataset kind).evaluate ageSecs inTradingSession = .stale := h
  have hflags : (Summary.evaluate kind ageSecs inTradingSession flags).qualityFlags =
      flags ++ (FreshnessPolicy.forDataset kind).ageFlags .stale := by
    unfold Summary.evaluate
    simp only [hfreshness]
  rw [hflags]
  exact ⟨_, List.mem_append_right _ (List.mem_singleton_self _), rfl⟩

/-- What `evaluate` promises about its verdict. -/
structure Summary.Verdict (summary : Summary) : Prop where
  name : summary.datasetName = summary.dataset.chineseName
  ceiling : summary.confidenceCeiling = ceilingOf summary.freshness summary.qualityFlags
  high : summary.allowHighConfidence = decide (summary.confidenceCeiling = .high)
  compute : summary.allowDeterministicCompute = decide (summary.confidenceCeiling ≠ .blocked)
  stale : summary.freshness = .stale → ∃ flag ∈ summary.qualityFlags, flag.severity = .warning

theorem verdict_evaluate (kind : DatasetKind) (ageSecs : UInt64) (inTradingSession : Bool)
    (flags : List Flag) : (Summary.evaluate kind ageSecs inTradingSession flags).Verdict where
  name := rfl
  ceiling := rfl
  high := rfl
  compute := by
    unfold Summary.evaluate
    dsimp only
    split
    · next h => rw [h]; rfl
    · next h =>
      rw [Bool.not_eq_true _ |>.mp h]
      split <;> rfl
  stale := evaluate_stale kind ageSecs inTradingSession flags

theorem QualityObservation.Evaluated.verdict (h : o.Evaluated) : o.summary.Verdict := by
  obtain ⟨kind, ageSecs, inTradingSession, flags, heq⟩ := h
  rw [heq]
  exact verdict_evaluate kind ageSecs inTradingSession flags

/-- **The verdict that is worked out again** is the recorded one unless all flags are for information. -/
theorem confidenceCeiling_iff (h : o.summary.Verdict) :
    (o.row 0).confidenceCeiling = o.summary.confidenceCeiling ↔ ¬ o.summary.InfoOnly := by
  rw [h.ceiling]
  show (if o.summary.qualityFlags.any (·.severity = .blocking) then ConfidenceCeiling.blocked
    else if o.summary.freshness = .stale || !o.summary.qualityFlags.isEmpty then .medium else .high) =
      ceilingOf o.summary.freshness o.summary.qualityFlags ↔ _
  unfold ceilingOf
  by_cases hblocking : o.summary.qualityFlags.any (·.severity = .blocking)
  · rw [if_pos hblocking, if_pos hblocking]
    obtain ⟨flag, hmem, hflag⟩ := List.any_eq_true.1 hblocking
    refine iff_of_true rfl fun hinfo => ?_
    rw [hinfo.2 flag hmem] at hflag
    exact absurd (of_decide_eq_true hflag) (by decide)
  rw [if_neg hblocking, if_neg hblocking]
  by_cases hwarning : o.summary.qualityFlags.any (·.severity = .warning)
  · obtain ⟨flag, hmem, hflag⟩ := List.any_eq_true.1 hwarning
    have hempty : o.summary.qualityFlags.isEmpty = false := by
      rw [List.isEmpty_eq_false_iff]
      exact List.ne_nil_of_mem hmem
    rw [hwarning, hempty, Bool.not_false, Bool.or_true]
    refine iff_of_true rfl fun hinfo => ?_
    rw [hinfo.2 flag hmem] at hflag
    exact absurd (of_decide_eq_true hflag) (by decide)
  -- without a warning the data are not stale, and what flags there are are for information
  have hstale : o.summary.freshness ≠ .stale := by
    intro hstale
    obtain ⟨flag, hmem, hflag⟩ := h.stale hstale
    exact hwarning (List.any_eq_true.2 ⟨flag, hmem, decide_eq_true hflag⟩)
  have hinfo : ∀ flag ∈ o.summary.qualityFlags, flag.severity = .info := by
    intro flag hmem
    cases hseverity : flag.severity with
    | info => rfl
    | warning => exact absurd (List.any_eq_true.2 ⟨flag, hmem, decide_eq_true hseverity⟩) hwarning
    | blocking => exact absurd (List.any_eq_true.2 ⟨flag, hmem, decide_eq_true hseverity⟩) hblocking
  rw [Bool.not_eq_true _ |>.mp hwarning, decide_eq_false hstale]
  cases hflags : o.summary.qualityFlags with
  | nil => exact iff_of_true rfl fun h => h.1 hflags
  | cons flag flags =>
    refine iff_of_false (by simp) fun h => h ⟨?_, hinfo⟩
    rw [hflags]
    exact List.cons_ne_nil _ _

/-- **A loaded summary** is the recorded one exactly if the observation is plain. -/
theorem reloaded_summary_iff (h : o.Evaluated) : o.reloaded.summary = o.summary ↔ o.Plain := by
  have hceiling := confidenceCeiling_iff h.verdict
  constructor
  · intro heq
    refine ⟨congrArg Summary.dataset heq, hceiling.1 ?_⟩
    exact congrArg Summary.confidenceCeiling heq
  · intro hplain
    have hname : o.dataset.chineseName = o.summary.datasetName := by
      rw [hplain.dataset, h.verdict.name]
    have hsame := hceiling.2 hplain.flags
    have hhigh := h.verdict.high
    have hcompute := h.verdict.compute
    have hdataset := hplain.dataset
    unfold QualityObservation.reloaded QualityRow.load
    rw [hsame]
    cases hs : o.summary with
    | mk kind name freshness age cadence stale hard flags ceiling high compute =>
      rw [hs] at hhigh hcompute hdataset hname
      simp only [QualityObservation.row, hs, Summary.mk.injEq]
      refine ⟨hdataset, hname, trivial, rfl, rfl, rfl, rfl, trivial, trivial, hhigh.symm, hcompute.symm⟩

/-! ## What is stored -/

/-- What the calls store. -/
def stored (obs : List QualityObservation) : List QualityRow := obs.foldl qualityObservationAdd []

def QualityObservation.withId (id : ℕ) (o : QualityObservation) : QualityObservation :=
  { o with observationId := some id }

/-- What is recorded, with the ids of the rows. -/
def numbered (obs : List QualityObservation) : List QualityObservation :=
  obs.mapIdx fun i o => o.withId (i + 1)

/-- The row of a numbered observation. -/
def QualityObservation.asRow (o : QualityObservation) : QualityRow := o.row (o.observationId.getD 0)

theorem stored_concat (obs : List QualityObservation) (o : QualityObservation) :
    stored (obs ++ [o]) = stored obs ++ [o.row ((stored obs).length + 1)] := by
  unfold stored
  rw [List.foldl_append]
  rfl

theorem stored_eq (obs : List QualityObservation) :
    stored obs = (numbered obs).map QualityObservation.asRow := by
  induction obs using List.reverseRecOn with
  | nil => rfl
  | append_singleton obs o ih =>
    have hlength : (stored obs).length = obs.length := by
      rw [ih, List.length_map, numbered, List.length_mapIdx]
    rw [stored_concat, hlength, ih, numbered, numbered, List.mapIdx_concat, List.map_append]
    rfl

theorem mem_numbered : o ∈ numbered obs ↔
    ∃ (i : ℕ) (recorded : QualityObservation), obs[i]? = some recorded ∧ o = recorded.withId (i + 1) := by
  unfold numbered
  rw [List.mem_iff_getElem?]
  constructor
  · rintro ⟨i, hi⟩
    rw [List.getElem?_mapIdx, Option.map_eq_some_iff] at hi
    obtain ⟨recorded, hrecorded, heq⟩ := hi
    exact ⟨i, recorded, hrecorded, heq.symm⟩
  · rintro ⟨i, recorded, hrecorded, rfl⟩
    refine ⟨i, ?_⟩
    rw [List.getElem?_mapIdx, hrecorded]
    rfl

/-- A row id names one observation. -/
theorem numbered_inj {a b : QualityObservation} (ha : a ∈ numbered obs) (hb : b ∈ numbered obs)
    (h : a.observationId = b.observationId) : a = b := by
  obtain ⟨i, recorded, hi, rfl⟩ := mem_numbered.1 ha
  obtain ⟨j, recorded', hj, rfl⟩ := mem_numbered.1 hb
  have hij : i = j := Nat.succ_injective (Option.some_injective _ h)
  rw [hij] at hi
  rw [hij, Option.some_injective _ (hi.symm.trans hj)]

theorem evaluated_numbered (h : ∀ o ∈ obs, o.Evaluated) (ho : o ∈ numbered obs) : o.Evaluated := by
  obtain ⟨i, recorded, hi, rfl⟩ := mem_numbered.1 ho
  exact h recorded (List.mem_of_getElem? hi)

/-! ## What is read back -/

/-- The observations that a query asks for. -/
def asked (dataset : Option DatasetKind) (provider : Option String) (o : QualityObservation) : Bool :=
  dataset.all (o.dataset = ·) && provider.all (o.provider = ·)

/-- The newest recorded observations that a query asks for. -/
def newest (dataset : Option DatasetKind) (provider : Option String) (limit : ℕ)
    (obs : List QualityObservation) : List QualityObservation :=
  (Sorted.sortByKey QualityObservation.newestFirst ((numbered obs).filter (asked dataset provider))).take limit

theorem newest_subset : newest dataset provider limit obs ⊆ numbered obs := fun _ h =>
  List.mem_of_mem_filter (Sorted.mem_sortByKey.1 (List.mem_of_mem_take h))

/-- The rows are in the order of the observations. -/
theorem asRow_newestFirst {a b : QualityObservation} (ha : a ∈ numbered obs) (hb : b ∈ numbered obs) :
    a.newestFirst ≤ b.newestFirst ↔ a.asRow.newestFirst ≤ b.asRow.newestFirst := by
  obtain ⟨i, recorded, -, rfl⟩ := mem_numbered.1 ha
  obtain ⟨j, recorded', -, rfl⟩ := mem_numbered.1 hb
  unfold QualityObservation.newestFirst QualityRow.newestFirst
  rw [Prod.Lex.toLex_le_toLex, Prod.Lex.toLex_le_toLex]
  have hid : j + 1 + 1 ≤ i + 1 + 1 ↔ j + 1 ≤ i + 1 := by omega
  exact or_congr Iff.rfl (and_congr Iff.rfl hid)

/-- **A query** returns the newest of what was recorded, with the verdicts worked out again. -/
theorem recent_stored (dataset : Option DatasetKind) (provider : Option String) (limit : ℕ)
    (obs : List QualityObservation) :
    qualityObservationsRecent (stored obs) dataset provider limit =
      (newest dataset provider (max 1 (min limit 5000)) obs).map QualityObservation.reloaded := by
  have hsorted : Sorted.sortByKey QualityRow.newestFirst ((stored obs).filter fun row =>
      dataset.all (row.dataset = ·) && provider.all (row.provider = ·)) =
      (Sorted.sortByKey QualityObservation.newestFirst
        ((numbered obs).filter (asked dataset provider))).map QualityObservation.asRow := by
    rw [stored_eq, List.filter_map]
    exact (Sorted.map_sortByKey fun a ha b hb =>
      asRow_newestFirst (List.mem_of_mem_filter ha) (List.mem_of_mem_filter hb)).symm
  unfold qualityObservationsRecent newestRows
  rw [hsorted, ← List.map_take, List.map_map]
  refine List.map_congr_left fun o ho => ?_
  obtain ⟨i, recorded, -, rfl⟩ := mem_numbered.1 (newest_subset ho)
  rfl

/-- Every observation that a query returns has the summary that was recorded. -/
def ReadsBack (obs : List QualityObservation) : Prop :=
  ∀ dataset provider limit, ∀ back ∈ qualityObservationsRecent (stored obs) dataset provider limit,
    ∃ o ∈ numbered obs, back.observationId = o.observationId ∧ back.summary = o.summary

/-- What a query returns is among the newest 5000 of its dataset and its provider. -/
theorem newest_kind (hlimit : limit ≤ 5000) (ho : o ∈ newest dataset provider limit obs) :
    o ∈ newest (some o.dataset) (some o.provider) 5000 obs := by
  have hpage : o ∈ newest dataset provider 5000 obs := (List.take_prefix_take_left hlimit).subset ho
  have hkept : o ∈ (newest dataset provider 5000 obs).filter (asked (some o.dataset) (some o.provider)) :=
    List.mem_filter.2 ⟨hpage, by simp [asked]⟩
  have hmem := Sorted.filter_take_subset _ _ _ hkept
  rw [Sorted.filter_sortByKey, List.filter_filter] at hmem
  have hfilter : (numbered obs).filter (fun a =>
      asked (some o.dataset) (some o.provider) a && asked dataset provider a) =
      (numbered obs).filter (asked (some o.dataset) (some o.provider)) := by
    refine List.filter_congr fun a _ => ?_
    have hasked : asked dataset provider o = true :=
      (List.mem_filter.1 (Sorted.mem_sortByKey.1 (List.mem_of_mem_take ho))).2
    cases hkind : asked (some o.dataset) (some o.provider) a with
    | false => rfl
    | true =>
      have hsame : a.dataset = o.dataset ∧ a.provider = o.provider := by simpa [asked] using hkind
      rw [Bool.true_and, ← hasked]
      unfold asked
      rw [hsame.1, hsame.2]
  rw [hfilter] at hmem
  exact hmem

/-- **All returned summaries** are the recorded ones exactly if the newest 5000 observations of each dataset
and provider are plain. -/
theorem readsBack_iff (h : ∀ o ∈ obs, o.Evaluated) : ReadsBack obs ↔
    ∀ dataset provider, ∀ o ∈ newest (some dataset) (some provider) 5000 obs, o.Plain := by
  constructor
  · intro hback dataset provider o ho
    have hrecent : o.reloaded ∈ qualityObservationsRecent (stored obs) (some dataset) (some provider) 5000 := by
      rw [recent_stored]
      exact List.mem_map_of_mem ho
    obtain ⟨recorded, hmem, hid, hsummary⟩ := hback _ _ _ _ hrecent
    rw [← numbered_inj (newest_subset ho) hmem hid] at hsummary
    exact (reloaded_summary_iff (evaluated_numbered h (newest_subset ho))).1 hsummary
  · intro hplain dataset provider limit back hrecent
    rw [recent_stored] at hrecent
    obtain ⟨o, ho, rfl⟩ := List.mem_map.1 hrecent
    have hlimit : max 1 (min limit 5000) ≤ 5000 := by omega
    have hkind := hplain o.dataset o.provider o (newest_kind hlimit ho)
    exact ⟨o, newest_subset ho, rfl,
      (reloaded_summary_iff (evaluated_numbered h (newest_subset ho))).2 hkind⟩

/-! ## Reports -/

section

variable {F : Type} [CeilFloat F]

theorem reloaded_latencyMs (o : QualityObservation) : o.reloaded.latencyMs = o.latencyMs := by
  show (o.latencyMs.map (·.toInt64)).map (·.toUInt64) = o.latencyMs
  cases o.latencyMs <;> rfl

theorem sloOf_reloaded (first : QualityObservation) (rows : List QualityObservation) :
    (sloOf first.reloaded (rows.map QualityObservation.reloaded) : DatasetSlo F) = sloOf first rows := by
  have hlatencies : (rows.map QualityObservation.reloaded).filterMap (·.latencyMs) =
      rows.filterMap (·.latencyMs) := by
    rw [List.filterMap_map]
    exact congrArg (List.filterMap · rows) (funext reloaded_latencyMs)
  have hsuccesses : (rows.map QualityObservation.reloaded).filter (·.success) =
      (rows.filter (·.success)).map QualityObservation.reloaded := List.filter_map
  have hstale : (rows.map QualityObservation.reloaded).takeWhile
      (fun row => !row.success || row.summary.freshness ≠ .fresh) =
      (rows.takeWhile fun row => !row.success || row.summary.freshness ≠ .fresh).map
        QualityObservation.reloaded := List.takeWhile_map
  unfold sloOf
  simp only [hlatencies, hsuccesses, hstale, List.length_map, List.map_map]
  rfl

/-- The verdicts are no part of a report. -/
theorem reportOf_map (rows : List QualityObservation) (group : String ×ₗ String) :
    (reportOf (rows.map QualityObservation.reloaded) group : Option (DatasetSlo F)) =
      reportOf rows group := by
  have hsorted : Sorted.sortByKey QualityObservation.newestFirst
      ((rows.map QualityObservation.reloaded).filter (·.group = group)) =
      (Sorted.sortByKey QualityObservation.newestFirst (rows.filter (·.group = group))).map
        QualityObservation.reloaded := by
    rw [List.filter_map]
    symm
    apply Sorted.map_sortByKey
    intro a _ b _
    exact Iff.rfl
  unfold reportOf
  rw [hsorted]
  cases hrows : Sorted.sortByKey QualityObservation.newestFirst (rows.filter (·.group = group)) with
  | nil => rfl
  | cons first rest =>
    rw [List.map_cons]
    exact congrArg some (sloOf_reloaded first (first :: rest))

theorem reports_map (rows : List QualityObservation) :
    (reports (rows.map QualityObservation.reloaded) : List (DatasetSlo F)) = reports rows := by
  unfold reports
  rw [List.map_map, funext (reportOf_map rows)]
  rfl

/-- The order of the observations does not matter for the reports. -/
theorem reports_sortByKey (rows : List QualityObservation) :
    (reports (Sorted.sortByKey QualityObservation.newestFirst rows) : List (DatasetSlo F)) = reports rows := by
  have hgroups : ((Sorted.sortByKey QualityObservation.newestFirst rows).map (·.group)).insertionSort (· ≤ ·) =
      (rows.map (·.group)).insertionSort (· ≤ ·) := by
    refine List.Perm.eq_of_pairwise' (List.pairwise_insertionSort _ _) (List.pairwise_insertionSort _ _) ?_
    have hperm : List.Perm (Sorted.sortByKey QualityObservation.newestFirst rows) rows :=
      List.perm_insertionSort _ _
    exact (List.perm_insertionSort _ _).trans ((hperm.map _).trans (List.perm_insertionSort _ _).symm)
  have hreport : (reportOf (Sorted.sortByKey QualityObservation.newestFirst rows) :
      String ×ₗ String → Option (DatasetSlo F)) = reportOf rows := by
    funext group
    unfold reportOf
    rw [Sorted.filter_sortByKey, Sorted.sortByKey_eq_self (Sorted.sortByKey_pairwise _ _)]
  unfold reports
  rw [hgroups, hreport]

theorem mem_reports {report : DatasetSlo F} : report ∈ reports rows ↔
    ∃ group ∈ rows.map (·.group), reportOf rows group = some report := by
  unfold reports
  rw [List.mem_filterMap]
  exact exists_congr fun group => and_congr_left' Sorted.mem_sortedValues

theorem token_injective : Function.Injective DatasetKind.token := by
  intro a b h
  cases a <;> cases b <;> first | rfl | exact absurd h (by decide)

/-- A report is on a group, and counts its observations. -/
theorem reportOf_some {group : String ×ₗ String} {report : DatasetSlo F}
    (h : reportOf rows group = some report) :
    toLex (report.dataset.token, report.provider) = group ∧
      report.observations = (rows.filter (·.group = group)).length := by
  unfold reportOf at h
  have hlength : (Sorted.sortByKey QualityObservation.newestFirst (rows.filter (·.group = group))).length =
      (rows.filter (·.group = group)).length := List.length_insertionSort _ _
  cases hsorted : Sorted.sortByKey QualityObservation.newestFirst (rows.filter (·.group = group)) with
  | nil =>
    rw [hsorted] at h
    exact absurd h (by simp)
  | cons first rest =>
    rw [hsorted] at h hlength
    have hfirst : first ∈ Sorted.sortByKey QualityObservation.newestFirst
        (rows.filter (·.group = group)) := by
      rw [hsorted]
      exact List.mem_cons_self
    rw [← Option.some_injective _ h]
    exact ⟨of_decide_eq_true (List.mem_filter.1 (Sorted.mem_sortByKey.1 hfirst)).2, hlength⟩

theorem reportOf_isSome (ho : o ∈ rows) : ∃ report : DatasetSlo F, reportOf rows o.group = some report := by
  have hmem : o ∈ Sorted.sortByKey QualityObservation.newestFirst (rows.filter (·.group = o.group)) :=
    Sorted.mem_sortByKey.2 (List.mem_filter.2 ⟨ho, decide_eq_true rfl⟩)
  unfold reportOf
  cases hsorted : Sorted.sortByKey QualityObservation.newestFirst (rows.filter (·.group = o.group)) with
  | nil =>
    rw [hsorted] at hmem
    exact absurd hmem List.not_mem_nil
  | cons first rest => exact ⟨_, rfl⟩

/-- **The reports on a page** are those on all rows exactly if the page holds them all. -/
theorem reports_take_iff (rows : List QualityObservation) (n : ℕ) :
    (reports (rows.take n) : List (DatasetSlo F)) = reports rows ↔ rows.length ≤ n := by
  constructor
  · intro heq
    by_contra hlong
    -- the group of a dropped observation has fewer observations on the page
    have hdropped : rows.drop n ≠ [] := by
      intro hnil
      exact hlong (List.drop_eq_nil_iff.1 hnil)
    obtain ⟨o, ho⟩ := List.exists_mem_of_ne_nil _ hdropped
    obtain ⟨report, hreport⟩ := reportOf_isSome (F := F) (List.mem_of_mem_drop ho)
    have hmem : report ∈ reports (rows.take n) := by
      rw [heq]
      exact mem_reports.2 ⟨o.group, List.mem_map_of_mem (List.mem_of_mem_drop ho), hreport⟩
    obtain ⟨group, -, hpage⟩ := mem_reports.1 hmem
    obtain ⟨hgroup, hall⟩ := reportOf_some hreport
    obtain ⟨hgroup', hcount⟩ := reportOf_some hpage
    rw [← hgroup', hgroup, hall] at hcount
    have hsplit : (rows.filter (·.group = o.group)).length =
        ((rows.take n).filter (·.group = o.group)).length +
          ((rows.drop n).filter (·.group = o.group)).length := by
      rw [← List.length_append, ← List.filter_append, List.take_append_drop]
    have hkept : 0 < ((rows.drop n).filter (·.group = o.group)).length :=
      List.length_pos_of_mem (List.mem_filter.2 ⟨ho, decide_eq_true rfl⟩)
    omega
  · intro hshort
    rw [List.take_of_length_le hshort]

/-- The observations of a window. -/
def inWindow (now : ℤ) (windowSecs : ℕ) (obs : List QualityObservation) : List QualityObservation :=
  obs.filter (cutoff now windowSecs ≤ ·.recordedAt)

/-- A page of the newest observations has the newest of a window. -/
theorem page_inWindow (now : ℤ) (windowSecs : ℕ) (rows : List QualityObservation) (n : ℕ) :
    inWindow now windowSecs ((Sorted.sortByKey QualityObservation.newestFirst rows).take n) =
      (inWindow now windowSecs (Sorted.sortByKey QualityObservation.newestFirst rows)).take n := by
  have hsorted := Sorted.sortByKey_pairwise QualityObservation.newestFirst rows
  have hle : ∀ a b : QualityObservation, a.newestFirst ≤ b.newestFirst →
      decide (cutoff now windowSecs ≤ b.recordedAt) → decide (cutoff now windowSecs ≤ a.recordedAt) := by
    intro a b hab hb
    have hrecorded : b.recordedAt ≤ a.recordedAt := by
      rcases Prod.Lex.toLex_le_toLex.1 hab with h | ⟨h, -⟩
      · exact le_of_lt h
      · exact le_of_eq (OrderDual.toDual.injective h).symm
    exact decide_eq_true ((of_decide_eq_true hb).trans hrecorded)
  unfold inWindow
  rw [← Sorted.takeWhile_eq_filter _ hsorted hle,
    ← Sorted.takeWhile_eq_filter _ (hsorted.sublist (List.take_sublist _ _)) hle]
  exact List.take_takeWhile.symm

/-- The reports on every window are those on all that was recorded in it. -/
def ReportsWhole (F : Type) [CeilFloat F] (now : ℤ) (obs : List QualityObservation) : Prop :=
  ∀ windowSecs, (qualitySlo now (stored obs) windowSecs : List (DatasetSlo F)) =
    reports (inWindow now windowSecs (numbered obs))

theorem length_inWindow (now : ℤ) (windowSecs : ℕ) (obs : List QualityObservation) :
    (inWindow now windowSecs (numbered obs)).length = (inWindow now windowSecs obs).length := by
  have htimes : (numbered obs).map (·.recordedAt) = obs.map (·.recordedAt) := by
    refine List.ext_getElem? fun i => ?_
    rw [numbered, List.getElem?_map, List.getElem?_map, List.getElem?_mapIdx, Option.map_map]
    rfl
  have hcount : ∀ rows : List QualityObservation, (inWindow now windowSecs rows).length =
      (rows.map (·.recordedAt)).countP (cutoff now windowSecs ≤ ·) := by
    intro rows
    rw [List.countP_map, inWindow, ← List.countP_eq_length_filter]
    rfl
  rw [hcount, hcount, htimes]

/-- **The reports on a window** are whole exactly if it has no more observations than a page. -/
theorem reportsWhole_iff (now : ℤ) (obs : List QualityObservation) : ReportsWhole F now obs ↔
    ∀ windowSecs, (inWindow now windowSecs obs).length ≤ 5000 := by
  refine forall_congr' fun windowSecs => ?_
  have hall : (numbered obs).filter (asked none none) = numbered obs :=
    List.filter_eq_self.2 fun _ _ => rfl
  have hslo : (qualitySlo now (stored obs) windowSecs : List (DatasetSlo F)) =
      reports ((inWindow now windowSecs
        (Sorted.sortByKey QualityObservation.newestFirst (numbered obs))).take 5000) := by
    rw [← page_inWindow, ← reports_map]
    unfold qualitySlo
    rw [recent_stored, newest, hall, List.filter_map]
    rfl
  have hwhole : (reports (inWindow now windowSecs (numbered obs)) : List (DatasetSlo F)) =
      reports (inWindow now windowSecs
        (Sorted.sortByKey QualityObservation.newestFirst (numbered obs))) := by
    unfold inWindow
    rw [Sorted.filter_sortByKey, reports_sortByKey]
  have hlength : (inWindow now windowSecs
      (Sorted.sortByKey QualityObservation.newestFirst (numbered obs))).length =
      (inWindow now windowSecs obs).length := by
    rw [← length_inWindow now windowSecs obs]
    unfold inWindow
    rw [Sorted.filter_sortByKey]
    exact List.length_insertionSort _ _
  rw [hslo, hwhole, reports_take_iff, hlength]

end

/-- A fresh quote that a note comes with. -/
def noted (severity : Severity) : QualityObservation where
  observationId := none
  dataset := .realtimeQuote
  provider := "tencent"
  entityKey := none
  operation := "quote"
  success := true
  latencyMs := some 12
  summary := Summary.evaluate .realtimeQuote 1 true [⟨.unverified, severity, none, "单一来源"⟩]
  missingFields := 0
  conflicts := 0
  errorKind := none
  recordedAt := 0

end Astock.Quality
