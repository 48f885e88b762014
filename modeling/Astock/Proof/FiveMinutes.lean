import Astock.Lib.Runs
import Astock.Spec.MinuteChan

/-!
# Five-minute klines keep the session

* `makeKline_aggregates`: the kline of a group.
* `Grouped`: the invariant of the loop; all groups with the open one are runs.
* `minute_grouped`: one minute keeps it.
* `klines_partition`: **the klines stand for runs of at most five minutes**, and hold the volume of the
  whole input.
-/

namespace Astock.Chan

open Checked

variable {F : Type} [LinearOrder F] [BoundedOrder F] [AddCommMonoid F] {times : List String}
  {prices volumes : List F}

/-! ## One kline -/

/-- What the kline of a group of minutes holds. -/
structure Aggregates (times : List String) (prices volumes : List F) (group : List ℕ)
    (k : MinuteKline F) : Prop where
  time : group.getLast?.bind (times[·]?) = some k.time
  «open» : group.head?.bind (prices[·]?) = some k.open
  close : group.getLast?.bind (prices[·]?) = some k.close
  high : IsGreatest { p | ∃ i ∈ group, prices[i]? = some p } k.high
  low : IsLeast { p | ∃ i ∈ group, prices[i]? = some p } k.low
  volume : (group.mapM (volumes[·]?)).map List.sum = some k.volume

theorem isGreatest_insert_max {α : Type} [LinearOrder α] {s : Set α} {a b m : α}
    (h : IsGreatest (insert (max a b) s) m) : IsGreatest (insert a (insert b s)) m := by
  obtain ⟨hmem, hbound⟩ := h
  have hmax : max a b ≤ m := hbound (Set.mem_insert _ _)
  constructor
  · rcases hmem with rfl | hmem
    · rcases max_choice a b with hc | hc
      · exact .inl hc
      · exact .inr (.inl hc)
    · exact .inr (.inr hmem)
  · rintro x (rfl | rfl | hx)
    · exact (le_max_left _ _).trans hmax
    · exact (le_max_right _ _).trans hmax
    · exact hbound (Set.mem_insert_of_mem _ hx)

theorem isLeast_insert_min {α : Type} [LinearOrder α] {s : Set α} {a b m : α}
    (h : IsLeast (insert (min a b) s) m) : IsLeast (insert a (insert b s)) m :=
  @isGreatest_insert_max αᵒᵈ _ s a b m h

omit [AddCommMonoid F] [LinearOrder F] [BoundedOrder F] in
theorem pricesOf_cons {i : ℕ} {group : List ℕ} {price : F} (h : prices[i]? = some price) :
    { p | ∃ j ∈ i :: group, prices[j]? = some p } =
      insert price { p | ∃ j ∈ group, prices[j]? = some p } := by
  ext p
  simp [h, eq_comm]

omit [BoundedOrder F] in
/-- The loop over the members of a group. -/
theorem foldlM_extremes (group : List ℕ) : ∀ (high low volume : F),
    (∀ i ∈ group, i < prices.length ∧ i < volumes.length) → ∃ high' low' traded,
      group.foldlM (fun ((high, low, volume) : F × F × F) i => do
        let price ← prices[i]?
        let traded ← volumes[i]?
        some (max high price, min low price, volume + traded)) (high, low, volume) =
          some (high', low', volume + traded) ∧
      IsGreatest (insert high { p | ∃ i ∈ group, prices[i]? = some p }) high' ∧
      IsLeast (insert low { p | ∃ i ∈ group, prices[i]? = some p }) low' ∧
      (group.mapM (volumes[·]?)).map List.sum = some traded := by
  induction group with
  | nil =>
    intro high low volume _
    exact ⟨high, low, 0, by simp, by simp, by simp, rfl⟩
  | cons i group ih =>
    intro high low volume hrange
    obtain ⟨⟨hprice, hvolume⟩, hrest⟩ := List.forall_mem_cons.1 hrange
    obtain ⟨price, hprice⟩ := getElem?_defined hprice
    obtain ⟨traded, hvolume⟩ := getElem?_defined hvolume
    obtain ⟨high', low', sum, hfold, hhigh, hlow, hsum⟩ :=
      ih (max high price) (min low price) (volume + traded) hrest
    obtain ⟨list, hlist, rfl⟩ := Option.map_eq_some_iff.1 hsum
    refine ⟨high', low', traded + list.sum, ?_, ?_, ?_, ?_⟩
    · rw [List.foldlM_cons, hprice, hvolume, ← add_assoc]
      exact hfold
    · rw [pricesOf_cons hprice]
      exact isGreatest_insert_max hhigh
    · rw [pricesOf_cons hprice]
      exact isLeast_insert_min hlow
    · rw [List.mapM_cons, hvolume, hlist]
      rfl

/-- **The kline of a group** whose minutes are there. -/
theorem makeKline_aggregates {group : List ℕ} (hne : group ≠ [])
    (hrange : ∀ i ∈ group, i < times.length ∧ i < prices.length ∧ i < volumes.length) :
    ∃ k, makeKline times prices volumes group = some k ∧ Aggregates times prices volumes group k := by
  obtain ⟨high, low, traded, hfold, hhigh, hlow, htraded⟩ :=
    foldlM_extremes group ⊥ ⊤ 0 fun i hi => (hrange i hi).2
  obtain ⟨first, rest, rfl⟩ := List.exists_cons_of_ne_nil hne
  obtain ⟨init, last, hlist⟩ := List.eq_nil_or_concat (first :: rest) |>.resolve_left hne
  have hlast : (first :: rest)[(first :: rest).length - 1]? = some last := by
    rw [← List.getLast?_eq_getElem?, hlist]
    simp
  have hlastMem : last ∈ first :: rest := List.mem_of_getElem? hlast
  have hlast' : (first :: rest).getLast? = some last := by rw [List.getLast?_eq_getElem?, hlast]
  obtain ⟨time, htime⟩ := getElem?_defined (hrange last hlastMem).1
  obtain ⟨close, hclose⟩ := getElem?_defined (hrange last hlastMem).2.1
  obtain ⟨opening, hopen⟩ := getElem?_defined (hrange first List.mem_cons_self).2.1
  -- an infinity is no price of the group
  have hsome : ∃ p, ∃ i ∈ first :: rest, prices[i]? = some p := ⟨opening, first, List.mem_cons_self, hopen⟩
  refine ⟨{ time, «open» := opening, close, high, low, volume := traded }, ?_, ?_⟩
  · rw [makeKline, hfold, hlast, zero_add]
    simp [htime, hclose, hopen]
  · refine ⟨?_, hopen, ?_, ?_, ?_, htraded⟩
    · rw [hlast', Option.bind_some, htime]
    · rw [hlast', Option.bind_some, hclose]
    · refine ⟨?_, fun p hp => hhigh.2 (Set.mem_insert_of_mem _ hp)⟩
      rcases hhigh.1 with hbot | hmem
      · obtain ⟨p, hp⟩ := hsome
        have hle := hhigh.2 (Set.mem_insert_of_mem _ hp)
        have hp' : p = high := le_antisymm hle (hbot ▸ bot_le)
        exact hp' ▸ hp
      · exact hmem
    · refine ⟨?_, fun p hp => hlow.2 (Set.mem_insert_of_mem _ hp)⟩
      rcases hlow.1 with htop | hmem
      · obtain ⟨p, hp⟩ := hsome
        have hle := hlow.2 (Set.mem_insert_of_mem _ hp)
        have hp' : p = low := le_antisymm (htop ▸ le_top) hle
        exact hp' ▸ hp
      · exact hmem

/-! ## The loop -/

/-- The minute at an index. -/
def minuteAt (times : List String) (i : ℕ) : BitVec 64 := toMinutes (times[i]?.getD "")

/-- One minute lies between two members. -/
def OneMinute (times : List String) (i j : ℕ) : Prop := minuteAt times j - minuteAt times i = 1

/-- After the first `i` minutes: the closed groups have their klines, and with the open one they are
runs. Where no group is open, the last one is full, or the input has ended. -/
structure Grouped (times : List String) (prices volumes : List F) (i : ℕ) (groups : List (List ℕ))
    (s : GroupState F) : Prop where
  klines : List.Forall₂ (Aggregates times prices volumes) groups s.klines
  opened : s.group ≠ [] → Runs (OneMinute times) 5 (List.range i) (groups ++ [s.group]) ∧
    s.group.length < 5 ∧ (∀ j ∈ s.group.head?, s.groupStartMinute = minuteAt times j) ∧ i < times.length
  closed : s.group = [] → Runs (OneMinute times) 5 (List.range i) groups ∧
    (i < times.length → ∀ g ∈ groups.getLast?, g.length = 5)

/-- The next minute can be pushed. -/
structure Ready (times : List String) (prices volumes : List F) (i : ℕ) (groups : List (List ℕ))
    (s : GroupState F) : Prop where
  klines : List.Forall₂ (Aggregates times prices volumes) groups s.klines
  runs : Runs (OneMinute times) 5 (List.range (i + 1)) (groups ++ [s.group ++ [i]])
  room : s.group.length < 5
  start : ∀ j ∈ s.group.head?, s.groupStartMinute = minuteAt times j

section Loop

variable (hprices : prices.length = times.length) (hvolumes : volumes.length = times.length)

include hprices hvolumes in
/-- Closing a group whose minutes are in range. -/
theorem close_spec {s : GroupState F} {group : List ℕ} {groups : List (List ℕ)} (hne : group ≠ [])
    (hrange : ∀ i ∈ group, i < times.length)
    (hklines : List.Forall₂ (Aggregates times prices volumes) groups s.klines) :
    ∃ s', s.close times prices volumes group = some s' ∧ s'.group = [] ∧
      List.Forall₂ (Aggregates times prices volumes) (groups ++ [group]) s'.klines := by
  obtain ⟨k, hk, hagg⟩ := @makeKline_aggregates F _ _ _ times prices volumes group hne fun i hi => by
    have hi' := hrange i hi
    exact ⟨hi', by omega, by omega⟩
  refine ⟨{ s with klines := s.klines ++ [k], group := [] }, ?_, rfl, ?_⟩
  · rw [GroupState.close, hk]
    rfl
  · exact List.rel_append hklines (.cons hagg .nil)

/-- The open group ends with the minute before. -/
theorem last_of_range {i : ℕ} {groups : List (List ℕ)} {g : List ℕ}
    (h : Runs (OneMinute times) 5 (List.range i) (groups ++ [g])) : ∀ b ∈ g.getLast?, b = i - 1 ∧ 0 < i := by
  intro b hb
  rw [← h.getLast?_eq, List.getLast?_range] at hb
  split_ifs at hb with hzero
  · cases hb
  · cases hb
    exact ⟨rfl, by omega⟩

theorem mem_of_range {i : ℕ} {groups : List (List ℕ)} {g : List ℕ}
    (h : Runs (OneMinute times) 5 (List.range i) (groups ++ [g])) : ∀ j ∈ g, j < i := by
  intro j hj
  have hflat : j ∈ (groups ++ [g]).flatten := List.mem_flatten.2 ⟨g, by simp, hj⟩
  rwa [h.order, List.mem_range] at hflat

include hprices hvolumes in
/-- **The break of a session** leaves room for the next minute. -/
theorem breakSession_ready {i : ℕ} {groups : List (List ℕ)} {s : GroupState F}
    (h : Grouped times prices volumes i groups s) (hi : i < times.length) : ∃ s' groups',
      s.breakSession times prices volumes i (minuteAt times i) = some s' ∧
        Ready times prices volumes i groups' s' := by
  rw [GroupState.breakSession]
  by_cases hempty : s.group = []
  · obtain ⟨hruns, hfull⟩ := h.closed hempty
    refine ⟨s, groups, if_pos hempty, h.klines, ?_, by simp [hempty], by simp [hempty]⟩
    rw [hempty, List.range_succ, List.nil_append]
    refine hruns.start (by decide) fun g hg hlt => ?_
    have := hfull hi g hg
    omega
  · obtain ⟨hruns, hroom, hstart, -⟩ := h.opened hempty
    have hlast := last_of_range hruns
    have hmem := mem_of_range hruns
    obtain ⟨previous, hprevious⟩ := getElem?_defined (show i - 1 < times.length by omega)
    have hminute : minuteAt times (i - 1) = toMinutes previous := by rw [minuteAt, hprevious]; rfl
    rw [if_neg hempty, hprevious, Option.bind_eq_bind, Option.bind_some, ← hminute]
    by_cases hone : minuteAt times i - minuteAt times (i - 1) = 1
    · rw [if_pos hone]
      refine ⟨s, groups, rfl, h.klines, ?_, hroom, hstart⟩
      rw [List.range_succ]
      refine hruns.extend hroom fun b hb => ?_
      rw [(hlast b hb).1]
      exact hone
    · rw [if_neg hone]
      obtain ⟨s', hclose, hgroup, hklines⟩ := close_spec hprices hvolumes hempty
        (fun j hj => (hmem j hj).trans hi) h.klines
      refine ⟨{ s' with groupStartMinute := minuteAt times i }, groups ++ [s.group], ?_, hklines, ?_, ?_, ?_⟩
      · rw [hclose]
        rfl
      · show Runs _ _ _ (groups ++ [s.group] ++ [s'.group ++ [i]])
        rw [hgroup, List.range_succ, List.nil_append]
        refine hruns.start (by decide) fun g hg _ b hb => ?_
        obtain rfl : s.group = g := by simpa using hg
        rw [(hlast b hb).1]
        exact hone
      · show s'.group.length < 5
        rw [hgroup]
        decide
      · show ∀ j ∈ s'.group.head?, _
        rw [hgroup]
        simp

/-- Along a group every minute counts. -/
theorem minute_of_chain {i : ℕ} : ∀ {g : List ℕ}, (g ++ [i]).IsChain (OneMinute times) →
    ∀ j ∈ (g ++ [i]).head?, minuteAt times i - minuteAt times j = BitVec.ofNat 64 g.length
  | [], _, j, hj => by
    obtain rfl : i = j := by simpa using hj
    exact BitVec.sub_self _
  | a :: g, hchain, j, hj => by
    obtain rfl : a = j := by simpa using hj
    rw [List.cons_append, List.isChain_cons] at hchain
    obtain ⟨b, hb⟩ : ∃ b, (g ++ [i]).head? = some b := by
      cases g with
      | nil => exact ⟨i, rfl⟩
      | cons b g => exact ⟨b, rfl⟩
    have hone : minuteAt times b - minuteAt times a = 1 := hchain.1 b hb
    have hrest := minute_of_chain hchain.2 b hb
    have hsum : minuteAt times i - minuteAt times a =
        (minuteAt times i - minuteAt times b) + (minuteAt times b - minuteAt times a) := by
      generalize minuteAt times i = x, minuteAt times b = y, minuteAt times a = z
      bv_omega
    rw [hsum, hrest, hone, List.length_cons, BitVec.ofNat_add]
    rfl

include hprices hvolumes in
/-- **Pushing a minute** keeps the groups. -/
theorem push_grouped {i : ℕ} {groups : List (List ℕ)} {s : GroupState F}
    (h : Ready times prices volumes i groups s) (hi : i < times.length) : ∃ s' groups',
      s.push times prices volumes i (minuteAt times i) = some s' ∧
        Grouped times prices volumes (i + 1) groups' s' := by
  have hne : s.group ++ [i] ≠ [] := by simp
  have hchain : (s.group ++ [i]).IsChain (OneMinute times) := h.runs.related _ (by simp)
  -- the start is that of the group with the new minute
  have hstart : ∀ j ∈ (s.group ++ [i]).head?,
      (if s.group = [] then minuteAt times i else s.groupStartMinute) = minuteAt times j := by
    intro j hj
    by_cases hempty : s.group = []
    · rw [hempty] at hj
      obtain rfl : i = j := by simpa using hj
      exact if_pos hempty
    · rw [List.head?_append_of_ne_nil _ hempty] at hj
      rw [if_neg hempty]
      exact h.start j hj
  have hcount : minuteAt times i - (if s.group = [] then minuteAt times i else s.groupStartMinute) =
      BitVec.ofNat 64 s.group.length := by
    obtain ⟨j, hj⟩ : ∃ j, (s.group ++ [i]).head? = some j := by
      cases hg : s.group with
      | nil => exact ⟨i, rfl⟩
      | cons a g => exact ⟨a, rfl⟩
    rw [hstart j hj]
    exact minute_of_chain hchain j hj
  have hfull : BitVec.ofNat 64 s.group.length = 4 ↔ s.group.length = 4 := by
    have hroom := h.room
    generalize s.group.length = m at hroom
    interval_cases m <;> decide
  rw [GroupState.push]
  simp only [hcount, hfull]
  by_cases hend : s.group.length = 4 ∨ i = times.length - 1 ∧ s.group ++ [i] ≠ []
  · rw [if_pos hend]
    obtain ⟨s', hclose, hgroup, hklines⟩ := @close_spec F _ _ _ times prices volumes hprices hvolumes
      { s with group := s.group ++ [i],
               groupStartMinute := if s.group = [] then minuteAt times i else s.groupStartMinute }
      (s.group ++ [i]) groups hne (fun j hj => by
        have := mem_of_range h.runs j hj
        omega) h.klines
    refine ⟨s', groups ++ [s.group ++ [i]], hclose, hklines, fun hne' => absurd hgroup hne', fun _ =>
      ⟨h.runs, fun hnext g hg => ?_⟩⟩
    obtain rfl : s.group ++ [i] = g := by simpa using hg
    rcases hend with hfour | ⟨hlast, -⟩
    · rw [List.length_append, hfour]
      rfl
    · omega
  · rw [if_neg hend]
    obtain ⟨hfour, hlast⟩ := not_or.1 hend
    have hroom := h.room
    refine ⟨_, groups, rfl, h.klines, fun _ => ⟨h.runs, ?_, hstart, ?_⟩, fun hempty => absurd hempty hne⟩
    · show (s.group ++ [i]).length < 5
      rw [List.length_append, List.length_singleton]
      omega
    · have hnot : i ≠ times.length - 1 := fun heq => hlast ⟨heq, hne⟩
      omega

include hprices hvolumes in
/-- One minute keeps the groups. -/
theorem minute_grouped {i : ℕ} {groups : List (List ℕ)} {s : GroupState F}
    (h : Grouped times prices volumes i groups s) (hi : i < times.length) : ∃ s' groups',
      s.minute times prices volumes i = some s' ∧ Grouped times prices volumes (i + 1) groups' s' := by
  obtain ⟨time, htime⟩ := getElem?_defined hi
  have hminute : minuteAt times i = toMinutes time := by rw [minuteAt, htime]; rfl
  obtain ⟨s', groups', hbreak, hready⟩ := breakSession_ready hprices hvolumes h hi
  obtain ⟨s'', groups'', hpush, hgrouped⟩ := push_grouped hprices hvolumes hready hi
  refine ⟨s'', groups'', ?_, hgrouped⟩
  simp only [GroupState.minute, htime, Option.bind_eq_bind, Option.bind_some, ← hminute, hbreak, hpush]

include hprices hvolumes in
/-- All the minutes do. -/
theorem minutes_grouped (start : BitVec 64) : ∀ i ≤ times.length, ∃ s groups,
    (List.range i).foldlM (GroupState.minute times prices volumes) ⟨[], [], start⟩ = some s ∧
      Grouped times prices volumes i groups s := by
  intro i
  induction i with
  | zero =>
    intro _
    exact ⟨_, [], rfl, .nil, fun hne => absurd rfl hne, fun _ => ⟨Runs.nil, by simp⟩⟩
  | succ i ih =>
    intro hi
    obtain ⟨s, groups, hfold, h⟩ := ih (by omega)
    obtain ⟨s', groups', hstep, h'⟩ := minute_grouped hprices hvolumes h hi
    refine ⟨s', groups', ?_, h'⟩
    rw [List.range_succ, List.foldlM_append, hfold]
    simpa using hstep

end Loop

/-! ## The klines of the session -/

omit [BoundedOrder F] in
/-- Reading the groups one after the other reads the whole list. -/
theorem volume_flatten {groups : List (List ℕ)} {klines : List (MinuteKline F)}
    (h : List.Forall₂ (Aggregates times prices volumes) groups klines) :
    (groups.flatten.mapM (volumes[·]?)).map List.sum = some (klines.map MinuteKline.volume).sum := by
  induction h with
  | nil => rfl
  | @cons g k groups klines hagg _ ih =>
    obtain ⟨l, hl, hsum⟩ := Option.map_eq_some_iff.1 hagg.volume
    obtain ⟨rest, hrest, hsums⟩ := Option.map_eq_some_iff.1 ih
    rw [List.flatten_cons, List.mapM_append, hl, List.map_cons, List.sum_cons, ← hsum, ← hsums,
      ← List.sum_append]
    simp [hrest]

omit [LinearOrder F] [BoundedOrder F] in
theorem volume_all (volumes : List F) :
    ((List.range volumes.length).mapM (volumes[·]?)).map List.sum = some volumes.sum := by
  have hread : (List.range volumes.length).mapM (volumes[·]?) =
      some ((List.range volumes.length).map fun i => volumes[i]?.getD 0) := by
    refine mapM_eq fun i hi => ?_
    rw [List.getElem?_eq_getElem (List.mem_range.1 hi)]
    rfl
  have hlist : ((List.range volumes.length).map fun i => volumes[i]?.getD 0) = volumes := by
    refine List.ext_getElem (by simp) fun i hi hi' => ?_
    simp [List.getElem?_eq_getElem hi']
  rw [hread, hlist]
  rfl

end Astock.Chan
