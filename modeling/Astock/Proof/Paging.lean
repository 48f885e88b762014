import Astock.Spec.Paging
import Astock.Proof.EffectTable

/-!
# Walks through the store, page by page

* `walkEffects_eq`, `walkEvents_eq`: **following the cursors of `list_effects` and of
  `load_task` is a keyset walk**, upwards through the effects of a task and downwards
  through its events.
* `paging_exact`: so nothing is lost or repeated, whatever is written in between, and
  the walks end.
-/

namespace Astock

open Prog

variable {P : Platform} {s s' : EngineStore} {taskId : String} {limit : ℕ}

/-! ## What the cursors rely on -/

/-- What the cursors rely on: names that `validate_identity` accepts again, and sequence
numbers that are not negative. -/
structure Pageable (s : EngineStore) : Prop where
  tasks : ∀ row ∈ s.tasks, ValidIdentity row.taskId
  effects : ∀ row ∈ s.effects, ValidIdentity row.effectId ∧ 0 ≤ row.causedBySeq

theorem Pageable.step (h : Pageable s) (hstep : StoreStep P s s') : Pageable s' := by
  cases hstep with
  | same hsame => exact ⟨hsame.1 ▸ h.tasks, hsame.2.2 ▸ h.effects⟩
  | create now input hid _ =>
    refine ⟨fun row hrow => ?_, h.effects⟩
    rcases List.mem_append.1 hrow with hrow | hrow
    · exact h.tasks row hrow
    · obtain rfl := List.mem_singleton.1 hrow; exact hid
  | append now input _ _ _ _ _ => exact ⟨h.tasks, h.effects⟩
  | accept now input row _ _ _ =>
    refine ⟨fun row hrow => ?_, h.effects⟩
    obtain ⟨r₀, hr₀, ⟨-, rfl⟩ | ⟨-, rfl⟩⟩ := Table.mem_update hrow
    · exact h.tasks r₀ hr₀
    · exact h.tasks _ hr₀
  | begin now input hvalid _ _ =>
    refine ⟨h.tasks, fun row hrow => ?_⟩
    rcases List.mem_append.1 hrow with hrow | hrow
    · exact h.effects row hrow
    · obtain rfl := List.mem_singleton.1 hrow; exact ⟨hvalid.effectId, hvalid.causedBySeq⟩
  | finish now input row _ _ _ =>
    refine ⟨h.tasks, fun row hrow => ?_⟩
    obtain ⟨r₀, hr₀, ⟨-, rfl⟩ | ⟨-, rfl⟩⟩ := Table.mem_update hrow
    · exact h.effects r₀ hr₀
    · exact h.effects _ hr₀

theorem reachable_pageable (h : EngineStore.Reachable P s) : Pageable s := by
  obtain ⟨cs, rfl⟩ := h
  exact Run.run_invariant (fun s c h => Pageable.step h (after_step s c)) cs {} ⟨by simp, by simp⟩

theorem ValidIdentity.of_hasTask (h : Pageable s) (ht : s.hasTask taskId = true) :
    ValidIdentity taskId := by
  obtain ⟨row, hrow, rfl⟩ := hasTask_iff.1 ht
  exact h.tasks row hrow

theorem checkIdentity_ok {value name : String} (h : ValidIdentity value) :
    checkIdentity value name = .ok () := if_pos h

theorem clampLimit_pos (limit : ℕ) : 0 < clampLimit limit := by unfold clampLimit; omega

/-- Every store of a history is one that the first one grows into. -/
theorem mem_history : ∀ (callss : List (List StoreCall)) (s : EngineStore), ∀ s' ∈ s.history P callss,
    ∃ cs, s' = s.afterAll P cs := by
  intro callss
  induction callss with
  | nil => intro s s' h; simp [EngineStore.history] at h
  | cons cs rest ih =>
    intro s s' h
    rcases List.mem_cons.1 h with rfl | h
    · exact ⟨cs, rfl⟩
    · obtain ⟨cs', rfl⟩ := ih _ _ h
      exact ⟨cs ++ cs', (Run.run_append _ _ _).symm⟩

theorem length_history (callss : List (List StoreCall)) (s : EngineStore) :
    (s.history P callss).length = callss.length := by
  induction callss generalizing s with
  | nil => rfl
  | cons cs rest ih => exact congrArg (· + 1) (ih _)

theorem EngineStore.Reachable.afterAll (h : EngineStore.Reachable P s) (cs : List StoreCall) :
    EngineStore.Reachable P (s.afterAll P cs) := by
  obtain ⟨cs₀, rfl⟩ := h
  exact ⟨cs₀ ++ cs, Run.run_append _ _ _⟩

/-- The calls of a history lead from each of its stores to the last. -/
theorem history_last : ∀ (callss : List (List StoreCall)) (s : EngineStore),
    ∀ s' ∈ s :: s.history P callss, ∃ cs, s.afterAll P callss.flatten = s'.afterAll P cs := by
  intro callss
  induction callss with
  | nil =>
    intro s s' hs'
    obtain rfl := List.mem_singleton.1 hs'
    exact ⟨[], rfl⟩
  | cons cs rest ih =>
    intro s s' hs'
    rcases List.mem_cons.1 hs' with rfl | hs'
    · exact ⟨_, rfl⟩
    · obtain ⟨cs', hcs'⟩ := ih _ s' hs'
      refine ⟨cs', ?_⟩
      rw [← hcs', List.flatten_cons]
      exact Run.run_append _ _ _

/-! ## Effects -/

/-- The effects of a task. -/
def EngineStore.effectsOf (s : EngineStore) (taskId : String) : List EffectRow :=
  s.effects.filter (·.taskId = taskId)

/-- The query of `list_effects` reads the rows after its cursor. -/
theorem effectsAfter_eq (afterSeq : ℤ) (afterEffectId : String) (count : ℕ) :
    s.effectsAfter taskId afterSeq afterEffectId count =
      (Keyset.after EffectRow.position (toLex (afterSeq, afterEffectId)) (s.effectsOf taskId)).take
        count := by
  have hfilter : (s.effects.filter fun row => row.taskId = taskId ∧ (afterSeq < row.causedBySeq ∨
      row.causedBySeq = afterSeq ∧ afterEffectId < row.effectId)) =
      (s.effectsOf taskId).filter fun row => toLex (afterSeq, afterEffectId) < row.position := by
    rw [EngineStore.effectsOf, List.filter_filter]
    refine List.filter_congr fun row _ => ?_
    rw [EffectRow.position, decide_eq_decide.2 Prod.Lex.toLex_lt_toLex, Bool.and_comm,
      ← Bool.decide_and]
    exact decide_eq_decide.2 (and_congr_right fun _ => or_congr_right (and_congr_left fun _ => eq_comm))
  rw [EngineStore.effectsAfter, hfilter]
  rfl

/-- A cursor that `list_effects` accepts. -/
def GoodCursor (c : ℤ ×ₗ String) : Prop :=
  -1 ≤ (ofLex c).1 ∧ ((ofLex c).2 = "" ∨ ValidIdentity (ofLex c).2)

/-- A page as `list_effects` hands it out. -/
def EffectPage.of (page : Keyset.Page EffectRow (ℤ ×ₗ String)) : EffectPage where
  items := page.items
  nextAfterCausedBySeq := page.next.map fun c => (ofLex c).1
  nextAfterEffectId := page.next.map fun c => (ofLex c).2

/-- **`list_effects`** answers with the page after its cursor. -/
theorem listEffects_ok (htask : ValidIdentity taskId) (after : Option (ℤ × String))
    (hgood : GoodCursor (toLex (after.getD (-1, "")))) :
    listEffects s taskId limit after = .ok (.of (Keyset.page EffectRow.position (clampLimit limit)
      (toLex (after.getD (-1, ""))) (s.effectsOf taskId))) := by
  unfold listEffects
  rw [checkIdentity_ok htask]
  generalize after.getD (-1, "") = c at hgood
  obtain ⟨afterSeq, afterEffectId⟩ := c
  obtain ⟨hseq, hid⟩ := hgood
  have hvalid : afterEffectId ≠ "" → ValidIdentity afterEffectId := hid.resolve_left
  -- the answer, once the cursor is accepted
  have hpage (found : List EffectRow) (hfound : found = (Keyset.after EffectRow.position
      (toLex (afterSeq, afterEffectId)) (s.effectsOf taskId)).take (clampLimit limit + 1)) :
      (if clampLimit limit < found.length then
        .ok ⟨found.take (clampLimit limit),
          (found.take (clampLimit limit)).getLast?.map (·.causedBySeq),
          (found.take (clampLimit limit)).getLast?.map (·.effectId)⟩
        else .ok ⟨found, none, none⟩ : Except String EffectPage) =
      .ok (.of (Keyset.page EffectRow.position (clampLimit limit) (toLex (afterSeq, afterEffectId))
        (s.effectsOf taskId))) := by
    rw [Keyset.page, ← hfound]
    split
    · simp only [EffectPage.of, Option.map_map]; rfl
    · rfl
  refine (if_neg (not_lt.2 hseq)).trans ?_
  by_cases hne : afterEffectId = ""
  · exact (if_neg (not_not.2 hne)).trans (hpage _ (effectsAfter_eq ..))
  · refine (if_pos hne).trans ?_
    rw [checkIdentity_ok (hvalid hne)]
    exact hpage _ (effectsAfter_eq ..)

/-- **The cursors of `list_effects`** make a keyset walk through the effects of the task. -/
theorem walkEffects_eq (limit : ℕ) (htask : ValidIdentity taskId) : ∀ (stores : List EngineStore)
    (after : Option (ℤ × String)), (∀ s ∈ stores, Pageable s) →
      GoodCursor (toLex (after.getD (-1, ""))) →
      walkEffects taskId limit after stores = .ok (Keyset.walk EffectRow.position (clampLimit limit)
        (toLex (after.getD (-1, ""))) (stores.map (·.effectsOf taskId))) := by
  intro stores
  induction stores with
  | nil => intro after _ _; rfl
  | cons s rest ih =>
    intro after hall hgood
    obtain ⟨hs, hrest⟩ := List.forall_mem_cons.1 hall
    unfold walkEffects
    rw [listEffects_ok htask after hgood, List.map_cons, Keyset.walk]
    have hnext : ∀ k, (Keyset.page EffectRow.position (clampLimit limit)
        (toLex (after.getD (-1, ""))) (s.effectsOf taskId)).next = some k →
        ∃ row ∈ s.effectsOf taskId, row.position = k := fun _ => Keyset.mem_of_next
    generalize Keyset.page EffectRow.position (clampLimit limit) (toLex (after.getD (-1, "")))
      (s.effectsOf taskId) = page at hnext
    obtain ⟨items, next⟩ := page
    cases next with
    | none => rfl
    | some k =>
      -- the next cursor is the position of a stored effect
      obtain ⟨row, hrow, rfl⟩ := hnext k rfl
      obtain ⟨hid, hseq⟩ := hs.effects row (List.mem_filter.1 hrow).1
      have hgood' : GoodCursor (toLex (row.causedBySeq, row.effectId)) :=
        ⟨(by decide : (-1 : ℤ) ≤ 0).trans hseq, .inr hid⟩
      show (walkEffects taskId limit (some (row.causedBySeq, row.effectId)) rest >>= _) = _
      rw [ih (some (row.causedBySeq, row.effectId)) hrest hgood']
      rfl

/-- The cursor of the first request is before every stored effect. -/
theorem start_lt_position (hs : Pageable s) {row : EffectRow} (hrow : row ∈ s.effects) :
    (toLex (-1, "") : ℤ ×ₗ String) < row.position := by
  have hseq := (hs.effects row hrow).2
  exact Prod.Lex.toLex_lt_toLex.2 (.inl (by simp; omega))

theorem effectsOf_positions (h : EffectsOK s) (taskId : String) :
    ((s.effectsOf taskId).map EffectRow.position).Nodup := by
  have hids : ((s.effectsOf taskId).map (·.effectId)).Nodup :=
    h.effectIds.sublist (List.filter_sublist.map _)
  refine List.Nodup.of_map (fun p => (ofLex p).2) ?_
  rw [List.map_map]
  exact hids

/-- An effect is still there later on, at the same position of the same task. -/
theorem effect_later (h : EffectsOK s) (hext : EffectsExt s s') {row : EffectRow}
    (hrow : row ∈ s.effectsOf taskId) :
    ∃ row', s'.effectOf row.effectId = some row' ∧ row.Later row' ∧ row' ∈ s'.effectsOf taskId ∧
      row'.position = row.position := by
  obtain ⟨hmem, htask⟩ := List.mem_filter.1 hrow
  obtain ⟨row', hfind, hlater⟩ := hext _ _ (Table.find_of_mem h.effectIds hmem)
  refine ⟨row', hfind, hlater, List.mem_filter.2 ⟨Table.mem_of_find hfind, ?_⟩, ?_⟩
  · rw [hlater.taskId]; exact htask
  · rw [EffectRow.position, hlater.causedBySeq, hlater.effectId]; rfl

/-- What requests that start at `s` meet. -/
structure MetLater (P : Platform) (s s' : EngineStore) : Prop where
  pageable : Pageable s'
  effects : EffectsOK s'
  effectsExt : EffectsExt s s'
  log : LogOK s'
  logExt : LogExt s s'

theorem EngineStore.Reachable.metLater (h : EngineStore.Reachable P s) (callss : List (List StoreCall)) :
    ∀ s' ∈ s :: s.history P callss, MetLater P s s' := by
  intro s' hs'
  obtain ⟨cs, rfl⟩ : ∃ cs, s' = s.afterAll P cs := by
    rcases List.mem_cons.1 hs' with rfl | hs'
    · exact ⟨[], rfl⟩
    · exact mem_history callss s s' hs'
  exact ⟨reachable_pageable (h.afterAll cs), reachable_effectsOK (h.afterAll cs),
    afterAll_effectsExt s cs, reachable_logOK (h.afterAll cs), afterAll_logExt s cs⟩

/-- The tables that a walk through the effects of a task reads. -/
theorem effectTables_nodup (h : EngineStore.Reachable P s) (taskId : String)
    (callss : List (List StoreCall)) :
    ∀ rows ∈ (s :: s.history P callss).map (·.effectsOf taskId),
      (rows.map EffectRow.position).Nodup := by
  intro rows hrows
  obtain ⟨s', hs', rfl⟩ := List.mem_map.1 hrows
  exact effectsOf_positions (h.metLater callss s' hs').effects taskId

/-- **A walk through the effects of a task** shows them in strict order, so none twice, and
when it ends it has shown every one that was there at the start. -/
theorem effects_walked (h : EngineStore.Reachable P s) (htask : s.hasTask taskId = true) (limit : ℕ)
    (callss : List (List StoreCall)) :
    ∃ pages ended, walkEffects taskId limit none (s :: s.history P callss) = .ok (pages, ended) ∧
      (pages.flatten.map EffectRow.position).Pairwise (· < ·) ∧
      (∀ row ∈ pages.flatten, ∃ s' ∈ s :: s.history P callss, row ∈ s'.effectsOf taskId) ∧
      (ended = true → ∀ row ∈ s.effectsOf taskId, ∃ row' ∈ pages.flatten, row.Later row') := by
  have hmet := h.metLater callss
  have hnodup := effectTables_nodup h taskId callss
  have hvalid := ValidIdentity.of_hasTask (reachable_pageable h) htask
  have hshown := Keyset.mem_of_mem_walk (clampLimit_pos limit) _ (toLex (-1, "")) hnodup
  refine ⟨_, _, walkEffects_eq limit hvalid _ none (fun s' hs' => (hmet s' hs').pageable)
    ⟨le_refl _, .inl rfl⟩, Keyset.walk_sorted (clampLimit_pos _) _ _ hnodup, fun row hrow => ?_,
    fun hend row hrow => ?_⟩
  · obtain ⟨-, rows, hrows, hin⟩ := hshown row hrow
    obtain ⟨s', hs', rfl⟩ := List.mem_map.1 hrows
    exact ⟨s', hs', hin⟩
  · have hok := reachable_effectsOK h
    have hposition : row.position ∈ _ := Keyset.walk_complete (clampLimit_pos _) _ _ row.position
      (fun rows hrows => ⟨hnodup rows hrows, by
        obtain ⟨s', hs', rfl⟩ := List.mem_map.1 hrows
        obtain ⟨row', -, -, hin, hpos⟩ := effect_later hok (hmet s' hs').effectsExt hrow
        exact hpos ▸ List.mem_map_of_mem hin⟩)
      (start_lt_position (reachable_pageable h) (List.mem_filter.1 hrow).1) hend
    -- what is shown at this position is the effect as it was then
    obtain ⟨row', hin, hpos⟩ := List.mem_map.1 hposition
    obtain ⟨-, rows, hrows, hmem⟩ := hshown row' hin
    obtain ⟨s', hs', rfl⟩ := List.mem_map.1 hrows
    obtain ⟨row'', hfind, hlater, -⟩ := effect_later hok (hmet s' hs').effectsExt hrow
    have hid : row'.effectId = row.effectId := congrArg (fun p => (ofLex p).2) hpos
    have hfind' := Table.find_of_mem (hmet s' hs').effects.effectIds (List.mem_filter.1 hmem).1
    rw [hid] at hfind'
    obtain rfl := Option.some.inj (hfind.symm.trans hfind')
    exact ⟨row'', hin, hlater⟩

/-- **A walk through the effects of a task ends**: it makes no more requests than there are
effects in the end. -/
theorem effects_walk_ends (h : EngineStore.Reachable P s) (htask : s.hasTask taskId = true)
    (limit : ℕ) (callss : List (List StoreCall))
    (hlen : (s.afterAll P callss.flatten).effects.length ≤ callss.length) :
    ∃ pages, walkEffects taskId limit none (s :: s.history P callss) = .ok (pages, true) := by
  have hvalid := ValidIdentity.of_hasTask (reachable_pageable h) htask
  have hnodup := effectTables_nodup h taskId callss
  have hwalk := walkEffects_eq limit hvalid (s :: s.history P callss) none
    (fun s' hs' => (h.metLater _ s' hs').pageable) ⟨le_refl _, .inl rfl⟩
  have hshown := Keyset.mem_of_mem_walk (clampLimit_pos limit) _ (toLex (-1, "")) hnodup
  have hsorted := Keyset.walk_sorted (clampLimit_pos limit) _ (toLex (-1, "")) hnodup
  have hunended := Keyset.walk_unended (clampLimit_pos limit) _ (toLex (-1, "")) hnodup
  refine ⟨_, hwalk.trans (congrArg Except.ok (Prod.ext rfl ?_))⟩
  by_contra hend
  have hmany := hunended (by simpa using hend)
  -- each effect shown is one of those there are in the end
  have hsub : ∀ x ∈ (Keyset.walk EffectRow.position (clampLimit limit) (toLex (-1, ""))
      ((s :: s.history P callss).map (·.effectsOf taskId))).1.flatten.map EffectRow.position,
      x ∈ (s.afterAll P callss.flatten).effects.map EffectRow.position := by
    intro x hx
    obtain ⟨row, hrow, rfl⟩ := List.mem_map.1 hx
    obtain ⟨-, rows, hrows, hmem⟩ := hshown row hrow
    obtain ⟨s', hs', rfl⟩ := List.mem_map.1 hrows
    obtain ⟨cs, hcs⟩ := history_last callss s s' hs'
    rw [hcs]
    obtain ⟨row', -, -, hin, hpos⟩ :=
      effect_later (h.metLater callss s' hs').effects (afterAll_effectsExt s' cs) hmem
    exact hpos ▸ List.mem_map_of_mem (List.mem_filter.1 hin).1
  have hdistinct : List.Nodup _ := hsorted.imp ne_of_lt
  have hfew := (hdistinct.subperm hsub).length_le
  rw [List.length_map, List.length_map] at hfew
  rw [List.length_map, List.length_cons, length_history] at hmany
  omega

/-- When nothing is written, the walk shows the effects of the task as they are, in order. -/
theorem effects_walk_static (h : EngineStore.Reachable P s) (htask : s.hasTask taskId = true)
    (limit : ℕ) {n : ℕ} (hn : s.effects.length ≤ n) :
    ∃ pages, walkEffects taskId limit none (s :: List.replicate n s) = .ok (pages, true) ∧
      pages.flatten = (s.effectsOf taskId).insertionSort fun a b => a.position ≤ b.position := by
  have hvalid := ValidIdentity.of_hasTask (reachable_pageable h) htask
  have hnodup := effectsOf_positions (reachable_effectsOK h) taskId
  have hpageable := reachable_pageable h
  have hlen : (s.effectsOf taskId).length < n + 1 :=
    Nat.lt_succ_of_le ((List.length_filter_le _ _).trans hn)
  have hstart : Keyset.after EffectRow.position (toLex (-1, "")) (s.effectsOf taskId) =
      (s.effectsOf taskId).insertionSort fun a b => a.position ≤ b.position := by
    rw [Keyset.after, List.filter_eq_self.2]
    intro row hrow
    exact decide_eq_true (start_lt_position hpageable (List.mem_filter.1 hrow).1)
  have hends := Keyset.walk_static_ends (clampLimit_pos limit) hnodup
    (by rw [hstart, List.length_insertionSort]; exact hlen)
  obtain ⟨rest, hrest, hnil⟩ :=
    Keyset.walk_static (clampLimit_pos limit) hnodup (n + 1) (toLex (-1, ""))
  rw [hnil hends, List.append_nil] at hrest
  have hwalk := walkEffects_eq limit hvalid (List.replicate (n + 1) s) none
    (fun s' hs' => (List.mem_replicate.1 hs').2 ▸ hpageable) ⟨le_refl _, .inl rfl⟩
  rw [← List.replicate_succ, hwalk, List.map_replicate]
  exact ⟨_, congrArg Except.ok (Prod.ext rfl hends), hrest.symm.trans hstart⟩

/-! ## Events -/

/-- The order of `ORDER BY seq DESC`. -/
def EventRow.backwards (row : EventRow) : ℤᵒᵈ := OrderDual.toDual row.seq

/-- The query of `load_task` reads the rows before its cursor. -/
theorem eventsBefore_eq (beforeSeq : ℤ) (count : ℕ) :
    s.eventsBefore taskId beforeSeq count =
      (Keyset.after EventRow.backwards (OrderDual.toDual beforeSeq) (s.eventsOf taskId)).take
        count := by
  have hfilter : (s.events.filter fun row => row.taskId = taskId ∧ row.seq < beforeSeq) =
      (s.eventsOf taskId).filter fun row => OrderDual.toDual beforeSeq < row.backwards := by
    rw [EngineStore.eventsOf, List.filter_filter]
    refine List.filter_congr fun row _ => ?_
    rw [Bool.and_comm, ← Bool.decide_and]
    rfl
  rw [EngineStore.eventsBefore, hfilter]
  rfl

/-- A page as `load_task` hands it out, earliest event first. -/
def LoadedTask.of (task : TaskRow) (page : Keyset.Page EventRow ℤᵒᵈ) : LoadedTask where
  task := task
  events := page.items.reverse
  eventsTruncated := page.next.isSome
  nextBeforeSeq := page.next.map OrderDual.ofDual

/-- **`load_task`** answers with the page before its cursor. -/
theorem loadTask_ok (hs : Pageable s) {task : TaskRow} (htask : s.taskOf taskId = some task)
    (before : Option ℤ) :
    loadTask s taskId limit before = .ok (.of task (Keyset.page EventRow.backwards
      (clampLimit limit) (OrderDual.toDual (before.getD i64Max)) (s.eventsOf taskId))) := by
  have hmem : task ∈ s.tasks := Table.mem_of_find htask
  obtain rfl : task.taskId = taskId := Table.key_of_find htask
  unfold loadTask
  rw [checkIdentity_ok (hs.tasks task hmem)]
  have hpage (found : List EventRow) (hfound : found = (Keyset.after EventRow.backwards
      (OrderDual.toDual (before.getD i64Max)) (s.eventsOf task.taskId)).take
        (clampLimit limit + 1)) :
      (if clampLimit limit < found.length then
        .ok ⟨task, (found.take (clampLimit limit)).reverse, true,
          (found.take (clampLimit limit)).getLast?.map (·.seq)⟩
        else .ok ⟨task, found.reverse, false, none⟩ : Except String LoadedTask) =
      .ok (.of task (Keyset.page EventRow.backwards (clampLimit limit)
        (OrderDual.toDual (before.getD i64Max)) (s.eventsOf task.taskId))) := by
    rw [Keyset.page, ← hfound]
    split
    · rename_i hmore
      obtain ⟨last, hlast⟩ : ∃ last, (found.take (clampLimit limit)).getLast? = some last := by
        refine Option.isSome_iff_exists.1 (List.getLast?_isSome.2 fun hnil => ?_)
        have hlen := congrArg List.length hnil
        have hpos : 0 < clampLimit limit := clampLimit_pos limit
        rw [List.length_take, List.length_nil] at hlen
        omega
      simp only [LoadedTask.of, hlast]
      rfl
    · rfl
  dsimp only [bind, Except.bind]
  rw [htask]
  exact hpage _ (eventsBefore_eq ..)

/-- **The cursors of `load_task`** make a keyset walk backwards through the events of the
task. -/
theorem walkEvents_eq (limit : ℕ) : ∀ (stores : List EngineStore) (before : Option ℤ),
    (∀ s ∈ stores, Pageable s ∧ s.hasTask taskId = true) →
      ∃ walk, walk = Keyset.walk EventRow.backwards (clampLimit limit)
          (OrderDual.toDual (before.getD i64Max)) (stores.map (·.eventsOf taskId)) ∧
        walkEvents taskId limit before stores = .ok (walk.1.map List.reverse, walk.2) := by
  intro stores
  induction stores with
  | nil => intro before _; exact ⟨_, rfl, rfl⟩
  | cons s rest ih =>
    intro before hall
    obtain ⟨⟨hs, htask⟩, hrest⟩ := List.forall_mem_cons.1 hall
    obtain ⟨task, htask⟩ := Option.isSome_iff_exists.1 htask
    refine ⟨_, rfl, ?_⟩
    unfold walkEvents
    rw [loadTask_ok hs htask before, List.map_cons, Keyset.walk]
    generalize Keyset.page EventRow.backwards (clampLimit limit)
      (OrderDual.toDual (before.getD i64Max)) (s.eventsOf taskId) = page
    obtain ⟨items, next⟩ := page
    cases next with
    | none => rfl
    | some k =>
      obtain ⟨walk, hwalk, hih⟩ := ih (some (OrderDual.ofDual k)) hrest
      show (walkEvents taskId limit (some (OrderDual.ofDual k)) rest >>= _) = _
      rw [hih, hwalk]
      rfl

theorem LogOK.ascending (h : LogOK s) (taskId : String) :
    ((s.eventsOf taskId).map (·.seq)).Pairwise (· < ·) := by
  have hnum : s.seqs taskId = _ := h.numbered taskId
  rw [show (s.eventsOf taskId).map (·.seq) = s.seqs taskId from rfl, hnum, List.pairwise_map]
  exact List.pairwise_lt_range.imp fun hij => by omega

theorem LogOK.backwards_nodup (h : LogOK s) (taskId : String) :
    ((s.eventsOf taskId).map EventRow.backwards).Nodup := by
  have hseqs : ((s.eventsOf taskId).map (·.seq)).Nodup := (h.ascending taskId).imp ne_of_lt
  refine List.Nodup.of_map OrderDual.ofDual ?_
  rw [List.map_map]
  exact hseqs

/-- Read backwards from the start, the log is reversed. -/
theorem after_start (h : LogOK s) (hfits : s.Fits) (taskId : String) :
    Keyset.after EventRow.backwards (OrderDual.toDual i64Max) (s.eventsOf taskId) =
      (s.eventsOf taskId).reverse := by
  have hseq : ∀ row ∈ s.eventsOf taskId, row.seq < i64Max := by
    intro row hrow
    have hle := ((h.numbered taskId).mem_iff.1 (List.mem_map_of_mem hrow)).2
    have hlen : (s.seqs taskId).length ≤ s.events.length := by
      rw [EngineStore.seqs, List.length_map]; exact List.length_filter_le _ _
    have hfits : s.events.length ≤ maxDatabaseBytes := hfits
    unfold maxDatabaseBytes at hfits
    unfold i64Max
    omega
  have hperm : (Keyset.after EventRow.backwards (OrderDual.toDual i64Max) (s.eventsOf taskId)).Perm
      (s.eventsOf taskId).reverse := by
    have hall : (s.eventsOf taskId).filter (fun row => OrderDual.toDual i64Max < row.backwards) =
        s.eventsOf taskId := List.filter_eq_self.2 fun row hrow => decide_eq_true (hseq row hrow)
    rw [Keyset.after, hall]
    exact (List.perm_insertionSort _ _).trans (List.reverse_perm _).symm
  have hsorted := Keyset.after_sorted (c := OrderDual.toDual i64Max) (h.backwards_nodup taskId)
  have hascending := h.ascending taskId
  rw [List.pairwise_map] at hsorted hascending
  refine hperm.eq_of_pairwise (fun a b _ _ hab hba => absurd hba (not_lt.2 hab.le)) hsorted ?_
  exact List.pairwise_reverse.2 hascending

/-- What is appended comes after the events there are. -/
theorem events_later (hs : LogOK s) (hs' : LogOK s') (hext : LogExt s s') (taskId : String) :
    ∃ added, s'.eventsOf taskId = s.eventsOf taskId ++ added ∧
      ∀ row ∈ added, ((s.eventsOf taskId).length : ℤ) < row.seq := by
  obtain ⟨added, hadded⟩ := hext.events
  have hsplit : s'.eventsOf taskId = s.eventsOf taskId ++ added.filter (·.taskId = taskId) := by
    rw [EngineStore.eventsOf, EngineStore.eventsOf, ← hadded, List.filter_append]
  refine ⟨_, hsplit, fun row hrow => ?_⟩
  have hascending := hs'.ascending taskId
  rw [hsplit, List.map_append, List.pairwise_append] at hascending
  have hmem : row.seq ∈ s'.seqs taskId := by
    rw [EngineStore.seqs, hsplit]
    exact List.mem_map_of_mem (List.mem_append_right _ hrow)
  have hpos := ((hs'.numbered taskId).mem_iff.1 hmem).1
  by_contra hle
  -- every number up to the length of the old log is taken
  have hold : row.seq ∈ s.seqs taskId := by
    refine (hs.numbered taskId).mem_iff.2 ⟨hpos, ?_⟩
    rw [EngineStore.seqs, List.length_map]
    omega
  exact lt_irrefl _ (hascending.2.2 _ hold _ (List.mem_map_of_mem hrow))

/-- After the first page, nothing that is appended is seen. -/
theorem walk_first (h : EngineStore.Reachable P s) (limit : ℕ) (callss : List (List StoreCall))
    (c : ℤᵒᵈ) :
    Keyset.walk EventRow.backwards (clampLimit limit) c
        ((s :: s.history P callss).map (·.eventsOf taskId)) =
      Keyset.walk EventRow.backwards (clampLimit limit) c
        (List.replicate ((s.history P callss).length + 1) (s.eventsOf taskId)) := by
  have hlog := reachable_logOK h
  rw [List.map_cons, List.replicate_succ, Keyset.walk, Keyset.walk]
  cases hnext : (Keyset.page EventRow.backwards (clampLimit limit) c (s.eventsOf taskId)).next with
  | none => rfl
  | some k =>
    have hsame : ∀ rows ∈ (s.history P callss).map (·.eventsOf taskId),
        rows.filter (fun row => k < row.backwards) =
          (s.eventsOf taskId).filter fun row => k < row.backwards := by
      intro rows hrows
      obtain ⟨s', hs', rfl⟩ := List.mem_map.1 hrows
      have hmet := h.metLater callss s' (List.mem_cons_of_mem _ hs')
      obtain ⟨added, hadded, hlater⟩ := events_later hlog hmet.log hmet.logExt taskId
      obtain ⟨row, hrow, rfl⟩ := Keyset.mem_of_next hnext
      have hle := ((hlog.numbered taskId).mem_iff.1 (List.mem_map_of_mem hrow)).2
      rw [EngineStore.seqs, List.length_map] at hle
      have hnone : added.filter (fun row' => row.backwards < row'.backwards) = [] := by
        refine List.filter_eq_nil_iff.2 fun row' hrow' => ?_
        have hlt := hlater row' hrow'
        show ¬ decide (row'.seq < row.seq) = true
        rw [decide_eq_true_iff]
        omega
      rw [hadded, List.filter_append, hnone, List.append_nil]
    have hwalk := Keyset.walk_congr (clampLimit_pos limit) (hlog.backwards_nodup taskId)
      ((s.history P callss).map (·.eventsOf taskId)) k hsame
    rw [List.length_map] at hwalk
    simp only [hwalk]

/-- **A walk backwards through the events of a task** shows the end of its log, page after
page and in order, as it was at the first request; it ends, and has then shown the log. -/
theorem events_walked (h : EngineStore.Reachable P s) (hfits : s.Fits)
    (htask : s.hasTask taskId = true) (limit : ℕ) (callss : List (List StoreCall)) :
    ∃ pages ended, walkEvents taskId limit none (s :: s.history P callss) = .ok (pages, ended) ∧
      pages.reverse.flatten <:+ s.eventsOf taskId ∧
      (ended = true → pages.reverse.flatten = s.eventsOf taskId) ∧
      ((s.eventsOf taskId).length ≤ callss.length → ended = true) := by
  have hlog := reachable_logOK h
  have hnodup := hlog.backwards_nodup taskId
  have hstart := after_start hlog hfits taskId
  have hstores : ∀ s' ∈ s :: s.history P callss, Pageable s' ∧ s'.hasTask taskId = true := by
    intro s' hs'
    have hmet := h.metLater callss s' hs'
    obtain ⟨task, hfind⟩ := Option.isSome_iff_exists.1 htask
    obtain ⟨task', hfind', -⟩ := hmet.logExt.tasks _ _ hfind
    exact ⟨hmet.pageable, Option.isSome_iff_exists.2 ⟨task', hfind'⟩⟩
  obtain ⟨walk, hwalk, hpages⟩ := walkEvents_eq limit _ none hstores
  rw [show (none : Option ℤ).getD i64Max = i64Max from rfl, walk_first h limit callss] at hwalk
  obtain ⟨rest, hrest, hnil⟩ := Keyset.walk_static (clampLimit_pos limit) hnodup
    ((s.history P callss).length + 1) (OrderDual.toDual i64Max)
  rw [← hwalk, hstart] at hrest
  have hlogs : s.eventsOf taskId = rest.reverse ++ (walk.1.map List.reverse).reverse.flatten := by
    rw [← List.reverse_flatten, ← List.reverse_append, ← hrest, List.reverse_reverse]
  refine ⟨_, _, hpages, ⟨rest.reverse, hlogs.symm⟩, fun hend => ?_, fun hlen => ?_⟩
  · rw [hwalk] at hend
    rw [hlogs, hnil hend]
    rfl
  · rw [hwalk]
    refine Keyset.walk_static_ends (clampLimit_pos _) hnodup ?_
    rw [hstart, List.length_reverse, length_history]
    omega

/-! ## Both walks -/

/-- What the walks of a task show that start at `s`, whatever calls are made between two
requests. -/
structure PagingExact (P : Platform) (s : EngineStore) (taskId : String) (limit : ℕ) : Prop where
  /-- Effects are shown in strict order, so none twice, each as some request met it; the
  walk ends, and none that was there at the start is missing then. -/
  effects : ∀ callss, ∃ pages ended,
    walkEffects taskId limit none (s :: s.history P callss) = .ok (pages, ended) ∧
      (pages.flatten.map EffectRow.position).Pairwise (· < ·) ∧
      (∀ row ∈ pages.flatten, ∃ s' ∈ s :: s.history P callss, row ∈ s'.effectsOf taskId) ∧
      (ended = true → ∀ row ∈ s.effectsOf taskId, ∃ row' ∈ pages.flatten, row.Later row') ∧
      ((s.afterAll P callss.flatten).effects.length ≤ callss.length → ended = true)
  /-- When nothing is written, the effects of the task are shown. -/
  effectsStatic : ∀ n, s.effects.length ≤ n → ∃ pages,
    walkEffects taskId limit none (s :: List.replicate n s) = .ok (pages, true) ∧
      pages.flatten = (s.effectsOf taskId).insertionSort fun a b => a.position ≤ b.position
  /-- Events are shown from the end of the log, which is in order, as it was at the start;
  the walk ends, and has shown the log then. -/
  events : ∀ callss, ∃ pages ended,
    walkEvents taskId limit none (s :: s.history P callss) = .ok (pages, ended) ∧
      pages.reverse.flatten <:+ s.eventsOf taskId ∧
      (ended = true → pages.reverse.flatten = s.eventsOf taskId) ∧
      ((s.eventsOf taskId).length ≤ callss.length → ended = true)
  ascending : ((s.eventsOf taskId).map (·.seq)).Pairwise (· < ·)

/-- **Paging loses and repeats nothing.** -/
theorem paging_exact (P : Platform) (s : EngineStore) (h : EngineStore.Reachable P s)
    (hfits : s.Fits) (taskId : String) (htask : s.hasTask taskId = true) (limit : ℕ) :
    PagingExact P s taskId limit where
  effects := by
    intro callss
    obtain ⟨pages, ended, hwalk, hsorted, hmem, hall⟩ := effects_walked h htask limit callss
    refine ⟨pages, ended, hwalk, hsorted, hmem, hall, fun hlen => ?_⟩
    obtain ⟨pages', hends⟩ := effects_walk_ends h htask limit callss hlen
    rw [hwalk] at hends
    exact congrArg Prod.snd (Except.ok.inj hends)
  effectsStatic := fun n hn => effects_walk_static h htask limit hn
  events := events_walked h hfits htask limit
  ascending := (reachable_logOK h).ascending taskId

/-- Three effects of one event. -/
def threeEffects : List StoreCall := oneEffect ++ [
  .beginEffect 0 { retried with effectId := "effect-3", idempotencyKey := "third-key" },
  .beginEffect 0 { retried with effectId := "effect-2", idempotencyKey := "second-key" }]

theorem threeEffects_paged : PagingExact (.inOrder retryDigest)
    (EngineStore.afterAll (.inOrder retryDigest) {} threeEffects) "task-1" 2 :=
  paging_exact _ _ ⟨threeEffects, rfl⟩ (by decide) _ (by decide) 2

end Astock
