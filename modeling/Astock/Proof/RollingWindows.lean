import Astock.Lib.AnalyticFloat
import Astock.Proof.ComputeFinite
import Mathlib.Data.List.ReduceOption

/-!
# Rolling windows in exact arithmetic

The rolling loop keeps sums over a window: it adds the observation that enters and takes away the one that
leaves. Over the real numbers these are the sums of the window itself.

* `Entries`: the observations of a window, when it is complete.
* `rollingWithCurrent_eq`: the loop gives what the window gives.
* `rsi_eq`: the relative strength is that of the changes of a window.
* `sliding_windows`: the operators over a window.
-/

namespace Astock.Compute

open Float64 AnalyticFloat

variable {α : Type} {values l : List (Option ℝ)} {window index i : ℕ} {m : Moments ℝ} {value : Option ℝ}

/-! ## Windows -/

/-- The last `window` observations at an index, when there are so many and none is missing. -/
def entries (values : List (Option α)) (window index : ℕ) : Option (List α) :=
  if window ≤ index + 1 then (windowBefore values window (index + 1)).mapM id else none

theorem mapM_id (l : List (Option α)) :
    l.mapM id = if missingIn l = 0 then some l.reduceOption else none := by
  induction l with
  | nil => rfl
  | cons x l ih =>
    rw [List.mapM_cons, ih]
    cases x with
    | none => simp [missingIn]
    | some x =>
      have hcount : missingIn (some x :: l) = missingIn l := by simp [missingIn]
      rw [hcount, List.reduceOption_cons_of_some]
      split
      · rfl
      · rfl

/-- The value at the index of a window that is complete. -/
theorem current_of_entries {values : List (Option α)} {xs : List α} (hindex : index < values.length)
    (hwindow : 1 ≤ window) (h : entries values window index = some xs) :
    ∃ x, values[index]? = some (some x) ∧ xs.length = window := by
  have hvalue : values[index]? = some values[index] := List.getElem?_eq_getElem hindex
  have hlong : window ≤ index + 1 := by
    by_contra hshort
    rw [entries, if_neg hshort] at h
    cases h
  rw [entries, if_pos hlong, mapM_id] at h
  split at h
  next hmissing =>
    have hmem : values[index] ∈ windowBefore values window (index + 1) := by
      have hat : (values.take (index + 1))[index]? = some values[index] := by
        rw [List.getElem?_take_of_lt (by omega), hvalue]
      refine List.mem_of_getElem? (i := window - 1) ?_
      rw [windowBefore, List.getElem?_drop, show index + 1 - window + (window - 1) = index by omega]
      exact hat
    obtain ⟨x, hx⟩ : ∃ x, values[index] = some x := by
      rw [missingIn, List.countP_eq_zero] at hmissing
      exact Option.ne_none_iff_exists'.1 fun hnone => hmissing _ hmem (by rw [hnone]; rfl)
    refine ⟨x, by rw [hvalue, hx], ?_⟩
    obtain rfl := Option.some.inj h
    have hall : (windowBefore values window (index + 1)).reduceOption.length =
        (windowBefore values window (index + 1)).length := by
      rw [List.reduceOption_length_eq_iff]
      intro y hy
      rw [missingIn, List.countP_eq_zero] at hmissing
      have := hmissing y hy
      cases y with
      | none => exact absurd rfl this
      | some _ => rfl
    rw [hall, windowBefore, List.length_drop, List.length_take]
    omega
  next => cases h

/-! ## The loop -/

/-- The sums over a window. -/
structure Sums (m : Moments ℝ) (l : List (Option ℝ)) : Prop where
  sum : m.sum = l.reduceOption.sum
  sumSq : m.sumSq = (l.reduceOption.map fun x => x * x).sum
  missing : m.missing = missingIn l

theorem Sums.enter (h : Sums m l) (value : Option ℝ) : Sums (m.enter value) (l ++ [value]) := by
  have hmissing : (m.enter value).missing = missingIn (l ++ [value]) := by
    rw [missing_enter, h.missing, missingIn, missingIn, missingIn, List.countP_append]
  cases value with
  | none =>
    have hsame : (l ++ [none]).reduceOption = l.reduceOption := by simp [List.reduceOption_append]
    refine ⟨?_, ?_, hmissing⟩
    · rw [hsame]; exact h.sum
    · rw [hsame]; exact h.sumSq
  | some x =>
    refine ⟨?_, ?_, hmissing⟩
    · simp [Moments.enter, h.sum, List.reduceOption_append]
    · simp [Moments.enter, h.sumSq, List.reduceOption_append]

/-- What leaves the window has been added, so that it is taken away exactly. -/
theorem Sums.leave (h : Sums m (value :: l)) : ∃ m', m.leave value = some m' ∧ Sums m' l := by
  have hsplit : missingIn (value :: l) = missingIn [value] + missingIn l := by
    rw [← List.singleton_append, missingIn, missingIn, missingIn, List.countP_append]
  have hcount := h.missing
  rw [hsplit] at hcount
  obtain ⟨m', hleave, hm'⟩ := leave_defined m value (by omega)
  refine ⟨m', hleave, ?_, ?_, by omega⟩
  · cases value with
    | none =>
      have hsum := h.sum
      rw [List.reduceOption_cons_of_none] at hsum
      have hsame : m'.sum = m.sum := by
        obtain ⟨n, -, hn⟩ := Option.bind_eq_some_iff.1 hleave
        rw [← Option.some.inj hn]
      rw [hsame, hsum]
    | some x =>
      obtain rfl := Option.some.inj hleave
      have hsum := h.sum
      rw [List.reduceOption_cons_of_some, List.sum_cons] at hsum
      show m.sum - x = _
      rw [hsum, add_sub_cancel_left]
  · cases value with
    | none =>
      have hsum := h.sumSq
      rw [List.reduceOption_cons_of_none] at hsum
      have hsame : m'.sumSq = m.sumSq := by
        obtain ⟨n, -, hn⟩ := Option.bind_eq_some_iff.1 hleave
        rw [← Option.some.inj hn]
      rw [hsame, hsum]
    | some x =>
      obtain rfl := Option.some.inj hleave
      have hsum := h.sumSq
      rw [List.reduceOption_cons_of_some, List.map_cons, List.sum_cons] at hsum
      show m.sumSq - x * x = _
      rw [hsum, add_sub_cancel_left]

/-- **One round of the loop**: the sums are those of the window that ends at the index. -/
theorem Sums.slide (h : Sums m (windowBefore values window index)) (hvalue : values[index]? = some value) :
    ∃ m', (m.enter value).slide values window index = some m' ∧
      Sums m' (windowBefore values window (index + 1)) := by
  have hindex : index < values.length := (List.getElem?_eq_some_iff.1 hvalue).1
  have hentered := h.enter value
  rw [← windowBefore_enter hvalue] at hentered
  by_cases hfull : window ≤ index
  · have hleft := List.getElem?_eq_getElem (show index - window < values.length by omega)
    rw [windowBefore_leave hfull hindex hleft] at hentered
    obtain ⟨m', hleave, hm'⟩ := hentered.leave
    refine ⟨m', ?_, hm'⟩
    simp [Moments.slide, hfull, checkedSub, hleft, hleave]
  · have hshort : index - window = index + 1 - window := by omega
    rw [hshort] at hentered
    exact ⟨_, if_neg hfull, hentered⟩

/-- What an operation gives at an index, from the sum and the sum of squares of the window. -/
def direct (values : List (Option ℝ)) (window : ℕ) (operation : ℝ → ℝ → ℝ → ℕ → Option ℝ) (index : ℕ) :
    Option ℝ := do
  let xs ← entries values window index
  let current ← (← values[index]?)
  operation current xs.sum (xs.map fun x => x * x).sum window

theorem rollingFrom_eq (operation : ℝ → ℝ → ℝ → ℕ → Option ℝ) (rest : List (Option ℝ)) :
    ∀ (index : ℕ) (m : Moments ℝ), values.drop index = rest →
      Sums m (windowBefore values window index) →
      rollingFrom values window operation index m rest =
        some ((List.range' index rest.length).map (direct values window operation)) := by
  induction rest with
  | nil => exact fun _ _ _ _ => rfl
  | cons value rest ih =>
    intro index m hrest hm
    have hvalue : values[index]? = some value := by
      rw [← List.head?_drop, hrest]; rfl
    have hrest' : values.drop (index + 1) = rest := by
      rw [← List.tail_drop, hrest]; rfl
    obtain ⟨m', hslide, hm'⟩ := hm.slide hvalue
    -- the window is complete when no observation of it is missing
    have houtput : (if window ≤ index + 1 ∧ m'.missing = 0 then
        value.bind fun current => operation current m'.sum m'.sumSq window else none) =
          direct values window operation index := by
      rw [direct, entries, mapM_id, hm'.sum, hm'.sumSq, hm'.missing, hvalue]
      by_cases hlong : window ≤ index + 1
      · by_cases hmissing : missingIn (windowBefore values window (index + 1)) = 0
        · rw [if_pos ⟨hlong, hmissing⟩, if_pos hlong, if_pos hmissing]
          rfl
        · rw [if_neg fun h => hmissing h.2, if_pos hlong, if_neg hmissing]
          rfl
      · rw [if_neg fun h => hlong h.1, if_neg hlong]
        rfl
    rw [rollingFrom]
    simp only [hslide, Option.bind_eq_bind, Option.bind_some, ih (index + 1) m' hrest' hm', houtput]
    rw [List.length_cons, List.range'_succ, List.map_cons]
    rfl

/-- **The rolling loop** gives what its windows give, and never counts below zero. -/
theorem rollingWithCurrent_eq (values : List (Option ℝ)) (window : ℕ)
    (operation : ℝ → ℝ → ℝ → ℕ → Option ℝ) : rollingWithCurrent values window operation =
      some ((List.range values.length).map (direct values window operation)) := by
  rw [rollingWithCurrent, rollingFrom_eq operation values 0 _ rfl, List.range_eq_range']
  exact ⟨by simp [windowBefore], by simp [windowBefore], by simp [windowBefore, missingIn]⟩

/-! ## Averages and deviations -/

noncomputable def mean (xs : List ℝ) : ℝ := xs.sum / xs.length

/-- The mean square of the distances from the mean. -/
noncomputable def populationVariance (xs : List ℝ) : ℝ :=
  (xs.map fun x => (x - mean xs) ^ 2).sum / xs.length

theorem sum_sq_dist (c : ℝ) (xs : List ℝ) : (xs.map fun x => (x - c) ^ 2).sum =
    (xs.map fun x => x * x).sum - 2 * c * xs.sum + xs.length * c ^ 2 := by
  induction xs with
  | nil => simp
  | cons x xs ih =>
    rw [List.map_cons, List.sum_cons, ih, List.map_cons, List.sum_cons, List.sum_cons,
      List.length_cons, Nat.cast_add, Nat.cast_one]
    ring

/-- **The variance** from the sum and the sum of squares is the mean square distance, which is not
negative. -/
theorem variance_eq {xs : List ℝ} (hne : xs ≠ []) :
    variance xs.sum (xs.map fun x => x * x).sum xs.length = populationVariance xs := by
  have hpos : (0 : ℝ) < xs.length := by exact_mod_cast List.length_pos_iff.2 hne
  have heq : (xs.map fun x => x * x).sum / xs.length - (xs.sum / xs.length) ^ 2 =
      populationVariance xs := by
    rw [populationVariance, sum_sq_dist, mean]
    field_simp
    ring
  have hnonneg : 0 ≤ populationVariance xs := by
    refine div_nonneg (List.sum_nonneg fun y hy => ?_) hpos.le
    obtain ⟨x, -, rfl⟩ := List.mem_map.1 hy
    positivity
  rw [variance, lit_real, lit_real, powi_real, Rat.cast_natCast, Rat.cast_zero, heq,
    max_eq_left hnonneg]

/-- An operation that reads only the sums, over the windows. -/
theorem rolling_eq {operation : ℝ → ℝ → ℕ → Option ℝ} {f : List ℝ → ℝ} (hwindow : 1 ≤ window)
    (hf : ∀ xs : List ℝ, xs.length = window →
      operation xs.sum (xs.map fun x => x * x).sum window = some (f xs)) :
    rolling values window operation =
      some ((List.range values.length).map fun i => (entries values window i).map f) := by
  rw [rolling, rollingWithCurrent_eq]
  refine congrArg some (List.map_congr_left fun i hi => ?_)
  cases hentries : entries values window i with
  | none => rw [direct, hentries]; rfl
  | some xs =>
    obtain ⟨x, hx, hlength⟩ := current_of_entries (List.mem_range.1 hi) hwindow hentries
    rw [direct, hentries, hx, Option.map_some, ← hf xs hlength]
    rfl

/-! ## Relative strength -/

/-- The change from the observation before an index. -/
def changeAt (values : List (Option ℝ)) (index : ℕ) : Option ℝ := do
  let previous ← (← values[index - 1]?)
  let current ← (← values[index]?)
  some (current - previous)

/-- The relative strength of changes: the average gain against the average loss. -/
noncomputable def relativeStrength (changes : List ℝ) : ℝ :=
  let gain := (changes.map fun d => max d 0).sum / changes.length
  let loss := (changes.map fun d => max (-d) 0).sum / changes.length
  if loss = 0 then if gain = 0 then 50 else 100 else 100 - 100 / (1 + gain / loss)

/-- The relative strength of the `window` changes that end at an index, when none is missing. -/
noncomputable def relativeStrengthAt (values : List (Option ℝ)) (window index : ℕ) : Option ℝ :=
  if window ≤ index then
    ((List.range' (index + 1 - window) window).mapM (changeAt values)).map relativeStrength
  else none

/-- The changes of a series, from its second observation on. -/
def changes (values : List (Option ℝ)) : List (Option ℝ) :=
  (List.range' 1 (values.length - 1)).map (changeAt values)

theorem mapM_of_forall {β : Type} {f : α → Option β} {g : α → β} {l : List α}
    (h : ∀ a ∈ l, f a = some (g a)) : l.mapM f = some (l.map g) := by
  induction l with
  | nil => rfl
  | cons a l ih =>
    rw [List.mapM_cons, h a List.mem_cons_self, ih fun b hb => h b (List.mem_cons_of_mem _ hb)]
    rfl

theorem moveAt_eq (hfrom : 1 ≤ index) (hindex : index < values.length) :
    moveAt values index = some ((changeAt values index).map fun d => max d 0,
      (changeAt values index).map fun d => max (-d) 0) := by
  have hbefore : index - 1 < values.length := by omega
  have hzero : ((0 : ℚ) : ℝ) = 0 := Rat.cast_zero
  rw [moveAt, changeAt, checkedSub, if_pos hfrom]
  simp only [List.getElem?_eq_getElem hindex, List.getElem?_eq_getElem hbefore, Option.bind_eq_bind,
    Option.bind_some]
  cases values[index - 1] with
  | none => rfl
  | some previous =>
    cases values[index] with
    | none => rfl
    | some current => simp [move]

theorem entries_map (f : ℝ → ℝ) (values : List (Option ℝ)) (window index : ℕ) :
    entries (values.map (Option.map f)) window index = (entries values window index).map (List.map f) := by
  have hwindow : windowBefore (values.map (Option.map f)) window (index + 1) =
      (windowBefore values window (index + 1)).map (Option.map f) := by
    rw [windowBefore, windowBefore, List.map_drop, List.map_take]
  have hmissing : ∀ l : List (Option ℝ), missingIn (l.map (Option.map f)) = missingIn l := by
    intro l
    rw [missingIn, missingIn, List.countP_map]
    refine List.countP_congr fun x _ => ?_
    cases x <;> simp
  rw [entries, entries]
  split
  · rw [hwindow, mapM_id, mapM_id, hmissing, List.reduceOption_map]
    split
    · rfl
    · rfl
  · rfl

/-- The changes of a window are those of the series that end at the index. -/
theorem entries_changes (hfrom : window ≤ index) (hone : 1 ≤ window) (hindex : index < values.length) :
    entries (changes values) window (index - 1) =
      (List.range' (index + 1 - window) window).mapM (changeAt values) := by
  have hindex' : index - 1 + 1 = index := by omega
  have hrange : windowBefore (changes values) window index =
      (List.range' (index + 1 - window) window).map (changeAt values) := by
    rw [windowBefore, changes, ← List.map_take, ← List.map_drop]
    congr 1
    rw [List.take_range'_of_length_ge (by omega), List.drop_range']
    congr 1
    · omega
    · omega
  rw [entries, if_pos (by omega), hindex', hrange, List.mapM_map]
  rfl

theorem strength_eq {ds : List ℝ} (hlength : ds.length = window) :
    strength (some ((ds.map fun d => max d 0).sum / (window : ℝ)))
      (some ((ds.map fun d => max (-d) 0).sum / (window : ℝ))) = some (relativeStrength ds) := by
  rw [relativeStrength, ← hlength]
  simp only [strength, beq_real, lit_real, Rat.cast_zero, decide_eq_true_eq, Rat.cast_ofNat, Rat.cast_one]
  split
  · rfl
  · rfl

/-- The averages of what `f` makes of the changes, over the windows. -/
noncomputable def averagesOf (values : List (Option ℝ)) (window : ℕ) (f : ℝ → ℝ) : List (Option ℝ) :=
  (List.range (values.length - 1)).map fun i =>
    (entries (changes values) window i).map fun ds => (ds.map f).sum / (window : ℝ)

theorem rolling_changes (hwindow : 1 ≤ window) (f : ℝ → ℝ) :
    rolling ((changes values).map (Option.map f)) window (fun sum _ window => some (sum / lit window)) =
      some (averagesOf values window f) := by
  have hmean : ∀ xs : List ℝ, xs.length = window → (fun sum (_ : ℝ) (window : ℕ) =>
      some (sum / (lit window : ℝ))) xs.sum (xs.map fun x => x * x).sum window =
        some (xs.sum / (window : ℝ)) := by
    intro xs _
    simp
  rw [rolling_eq hwindow hmean, averagesOf, List.length_map, changes, List.length_map, List.length_range']
  refine congrArg some (List.map_congr_left fun i _ => ?_)
  rw [← changes, entries_map, Option.map_map]
  rfl

theorem averageMoves_eq (values : List (Option ℝ)) (hwindow : 1 ≤ window) :
    averageMoves values window = some (averagesOf values window fun d => max d 0,
      averagesOf values window fun d => max (-d) 0) := by
  have hmoves : (List.range' 1 (values.length - 1)).mapM (moveAt values) =
      some ((changes values).map fun c => (c.map fun d => max d 0, c.map fun d => max (-d) 0)) := by
    rw [changes, List.map_map]
    refine mapM_of_forall fun j hj => ?_
    obtain ⟨hfrom, hto⟩ := List.mem_range'_1.1 hj
    exact moveAt_eq hfrom (by omega)
  have hslice : ∀ l : List (Option ℝ), slice (none :: l) 1 (l.length + 1) = some l := by
    intro l
    rw [slice, if_pos ⟨by omega, by simp⟩]
    simp
  have hgains : ((changes values).map fun c => (c.map fun d : ℝ => max d 0,
      c.map fun d : ℝ => max (-d) 0)).map Prod.fst =
        (changes values).map (Option.map fun d => max d 0) := by
    rw [List.map_map]
    rfl
  have hlosses : ((changes values).map fun c => (c.map fun d : ℝ => max d 0,
      c.map fun d : ℝ => max (-d) 0)).map Prod.snd =
        (changes values).map (Option.map fun d => max (-d) 0) := by
    rw [List.map_map]
    rfl
  rw [averageMoves, hmoves]
  simp only [Option.bind_eq_bind, Option.bind_some, hgains, hlosses, List.length_cons, hslice,
    rolling_changes hwindow]
  rfl

/-- An average at the index before is that of the changes up to an index. -/
theorem getElem?_averagesOf (hfrom : window ≤ index) (hone : 1 ≤ window) (hindex : index < values.length)
    (f : ℝ → ℝ) : (averagesOf values window f)[index - 1]? =
      some (((List.range' (index + 1 - window) window).mapM (changeAt values)).map
        fun ds => (ds.map f).sum / (window : ℝ)) := by
  have hin : index - 1 < values.length - 1 := by omega
  rw [averagesOf, List.getElem?_map, List.getElem?_range hin, Option.map_some,
    entries_changes hfrom hone hindex]

theorem strengthAt_eq (hfrom : window ≤ index) (hone : 1 ≤ window) (hindex : index < values.length) :
    strengthAt (averagesOf values window fun d => max d 0) (averagesOf values window fun d => max (-d) 0)
      index = some (relativeStrengthAt values window index) := by
  rw [strengthAt_eq_some (hone.trans hfrom)]
  refine ⟨_, _, getElem?_averagesOf hfrom hone hindex _, getElem?_averagesOf hfrom hone hindex _, ?_⟩
  rw [relativeStrengthAt, if_pos hfrom]
  cases hds : (List.range' (index + 1 - window) window).mapM (changeAt values) with
  | none => rfl
  | some ds =>
    have hlength := (forall₂_of_mapM hds).length_eq
    rw [List.length_range'] at hlength
    exact strength_eq hlength.symm

/-- **The index** at every observation is that of the changes up to it. -/
theorem rsi_eq (values : List (Option ℝ)) (hwindow : 1 ≤ window) :
    rsi values window = some ((List.range values.length).map (relativeStrengthAt values window)) := by
  have hfirst : ∀ n ≤ window, (List.range' 0 n).map (relativeStrengthAt values window) =
      List.replicate n none := by
    intro n hn
    refine List.eq_replicate_iff.2 ⟨by simp, fun x hx => ?_⟩
    obtain ⟨i, hi, rfl⟩ := List.mem_map.1 hx
    have hlt := (List.mem_range'_1.1 hi).2
    rw [relativeStrengthAt, if_neg (by omega)]
  rw [rsi]
  by_cases hshort : values.length ≤ window
  · rw [if_pos hshort, List.range_eq_range', hfirst _ hshort]
  · have hstrength : (List.range' window (values.length - window)).mapM (strengthAt
        (averagesOf values window fun d => max d 0) (averagesOf values window fun d => max (-d) 0)) =
          some ((List.range' window (values.length - window)).map (relativeStrengthAt values window)) := by
      refine mapM_of_forall fun i hi => ?_
      obtain ⟨hfrom, hto⟩ := List.mem_range'_1.1 hi
      exact strengthAt_eq hfrom hwindow (by omega)
    have hsplit : List.range values.length =
        List.range' 0 window ++ List.range' window (values.length - window) := by
      have happend := List.range'_append_1 (s := 0) (m := window) (n := values.length - window)
      rw [Nat.zero_add, show window + (values.length - window) = values.length by omega] at happend
      rw [List.range_eq_range', happend]
    rw [if_neg hshort, averageMoves_eq values hwindow]
    simp only [Option.bind_eq_bind, Option.bind_some, hstrength]
    rw [hsplit, List.map_append, hfirst window le_rfl]
    rfl

/-! ## Operators over a window -/

/-- The distance of the current observation from the mean, in deviations. -/
noncomputable def zscoreAt (values : List (Option ℝ)) (window index : ℕ) : Option ℝ := do
  let xs ← entries values window index
  let current ← (← values[index]?)
  if Real.sqrt (populationVariance xs) = 0 then none
  else some ((current - mean xs) / Real.sqrt (populationVariance xs))

theorem sma_eq (values : List (Option ℝ)) (hwindow : 1 ≤ window) :
    (rolling values window fun sum _ window => finite (sum / lit window)) =
      some ((List.range values.length).map fun i => (entries values window i).map mean) := by
  refine rolling_eq hwindow fun xs hlength => ?_
  rw [mean, hlength]
  simp [finite, isFinite]

theorem ne_nil_of_length {xs : List ℝ} (hwindow : 1 ≤ window) (hlength : xs.length = window) : xs ≠ [] := by
  rintro rfl
  rw [List.length_nil] at hlength
  omega

theorem rollingStd_eq (values : List (Option ℝ)) (hwindow : 1 ≤ window) (multiplier : ℝ) :
    (rolling values window fun sum sumSq window =>
      finite (AnalyticFloat.sqrt (variance sum sumSq window) * multiplier)) =
      some ((List.range values.length).map fun i => (entries values window i).map fun xs =>
        Real.sqrt (populationVariance xs) * multiplier) := by
  refine rolling_eq hwindow fun xs hlength => ?_
  have hvariance := variance_eq (ne_nil_of_length hwindow hlength)
  rw [hlength] at hvariance
  rw [hvariance]
  rfl

theorem zscore_eq (values : List (Option ℝ)) (hwindow : 1 ≤ window) :
    (rollingWithCurrent values window fun current sum sumSq window =>
      let std := AnalyticFloat.sqrt (variance sum sumSq window)
      if std == lit 0 then none else finite ((current - sum / lit window) / std)) =
      some ((List.range values.length).map (zscoreAt values window)) := by
  rw [rollingWithCurrent_eq]
  refine congrArg some (List.map_congr_left fun i hi => ?_)
  cases hentries : entries values window i with
  | none => rw [direct, zscoreAt, hentries]; rfl
  | some xs =>
    obtain ⟨x, hx, hlength⟩ := current_of_entries (List.mem_range.1 hi) hwindow hentries
    have hvariance := variance_eq (ne_nil_of_length hwindow hlength)
    rw [hlength] at hvariance
    have hmean : xs.sum / ((window : ℚ) : ℝ) = mean xs := by
      rw [mean, hlength, Rat.cast_natCast]
    rw [direct, zscoreAt, hentries, hx]
    simp only [Option.bind_eq_bind, Option.bind_some, hvariance, hmean, sqrt_real, beq_real, lit_real,
      Rat.cast_zero, decide_eq_true_eq]
    rfl

/-- **Sliding windows are direct windows**, in exact arithmetic: the rolling loop never counts below zero
and gives at every index what the operation gives on the complete window, and the operators over a window
are their definitions on it. -/
theorem sliding_windows (window : ℕ) (hwindow : 1 ≤ window) :
    (∀ values operation, rollingWithCurrent values window operation =
      some ((List.range values.length).map (direct values window operation))) ∧
    ∀ (env : Env ℝ) input,
      (eval env (.sma input window) = pointwise (eval env input) "sma" fun values =>
        some ((List.range values.length).map fun i => (entries values window i).map mean)) ∧
      (∀ annualization, eval env (.rollingStd input window annualization) =
        pointwise (eval env input) "rolling_std" fun values =>
          some ((List.range values.length).map fun i => (entries values window i).map fun xs =>
            Real.sqrt (populationVariance xs) * Real.sqrt (annualization.getD 1))) ∧
      (eval env (.zscore input window) = pointwise (eval env input) "zscore" fun values =>
        some ((List.range values.length).map (zscoreAt values window))) ∧
      eval env (.rsi input window) = pointwise (eval env input) "rsi" fun values =>
        some ((List.range values.length).map (relativeStrengthAt values window)) := by
  refine ⟨fun values operation => rollingWithCurrent_eq values window operation, fun env input =>
    ⟨?_, fun annualization => ?_, ?_, ?_⟩⟩
  · exact congrArg (pointwise (eval env input) "sma") (funext fun values => sma_eq values hwindow)
  · have hone : annualization.getD (lit 1) = annualization.getD (1 : ℝ) := by
      cases annualization with
      | none => simp
      | some _ => rfl
    refine congrArg (pointwise (eval env input) "rolling_std") (funext fun values => ?_)
    rw [rollingStd_eq values hwindow, hone]
    rfl
  · exact congrArg (pointwise (eval env input) "zscore") (funext fun values => zscore_eq values hwindow)
  · exact congrArg (pointwise (eval env input) "rsi") (funext fun values => rsi_eq values hwindow)

theorem sliding_windows_gap : rollingWithCurrent [some (1 : ℝ), none, some 3, some 5] 2
    (fun _ sum _ _ => some sum) = some [none, none, none, some 8] := by
  rw [(sliding_windows 2 (by decide)).1]
  norm_num [List.range_succ, direct, entries, windowBefore, List.mapM_cons]

end Astock.Compute
