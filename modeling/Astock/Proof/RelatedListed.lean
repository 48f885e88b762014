import Astock.Spec.EntityLinking

/-!
# Related listed companies and the order of the relations

The search goes two relations far and keeps of each company the first way it finds.

* `relatedListed_eq`: the search ends, with the first of what it meets (`met`) for each company.
* `meets_iff`: what it meets is what at most two relations lead to.
* `related_listed_exact_iff`: **companies and eligibility are exact in every order of the relations**,
  exactly if an entity that has relations is not listed itself, and no company has ways that pass the
  threshold beside a way that could be found first and does not.
-/

namespace Astock.Linking

/-! ## Rows by the first of their key -/

section

variable {α : Type} {key : α → String} {rows new : List α} {k : String}

theorem find_orInsert (row : α) : Table.find key k (orInsert key rows row) =
    (Table.find key k rows).or (if key row = k then some row else none) := by
  unfold orInsert
  by_cases hk : key row = k
  · subst hk
    rw [if_pos rfl]
    split
    · next hfound =>
      obtain ⟨old, hold⟩ := Option.isSome_iff_exists.1 hfound
      rw [hold]
      rfl
    · next hfound =>
      rw [Option.not_isSome_iff_eq_none.1 hfound, Option.none_or]
      exact Table.find_insertOrdered_self
  · rw [if_neg hk, Option.or_none]
    split
    · rfl
    · exact Table.find_insertOrdered_of_ne (Ne.symm hk)

/-- **The first row of a key** is kept. -/
theorem find_foldl_orInsert : Table.find key k (new.foldl (orInsert key) rows) =
    (Table.find key k rows).or (Table.find key k new) := by
  induction new generalizing rows with
  | nil =>
    rw [List.foldl_nil]
    exact Option.or_none.symm
  | cons row new ih =>
    have hcons : Table.find key k (row :: new) =
        (if key row = k then some row else none).or (Table.find key k new) := by
      unfold Table.find
      by_cases hk : key row = k <;> simp [hk]
    rw [List.foldl_cons, ih, find_orInsert, hcons, Option.or_assoc]

theorem nodup_foldl_orInsert (h : (rows.map key).Nodup) :
    ((new.foldl (orInsert key) rows).map key).Nodup := by
  induction new generalizing rows with
  | nil => exact h
  | cons row new ih =>
    refine ih ?_
    unfold orInsert
    split
    · exact h
    · exact Table.nodup_insertOrdered h

end

variable {F : Type} [LinearOrder F] {entities : List ResearchEntity}
  {relations : List (EntityRelation F)} {relation relation' : EntityRelation F} {threshold : F}
  {start u v e : String} {visit : Visit F} {visits : List (Visit F)} {visited : List String}
  {results : List (RelatedListedEntity F)} {row : RelatedListedEntity F}

/-! ## Ways of at most two relations -/

/-- An accepted relation between two entities, in either direction. -/
def EntityRelation.Joins (relation : EntityRelation F) (u v : String) : Prop :=
  relation.status = "accepted" ∧
    (relation.fromEntityId = u ∧ relation.toEntityId = v ∨
      relation.toEntityId = u ∧ relation.fromEntityId = v)

omit [LinearOrder F] in
theorem EntityRelation.Joins.symm (h : relation.Joins u v) : relation.Joins v u :=
  ⟨h.1, h.2.elim (fun h => .inr h.symm) fun h => .inl h.symm⟩

omit [LinearOrder F] in
theorem EntityRelation.joins_iff : relation.Joins u v ↔ relation.leaves u ∧ relation.next u = v := by
  unfold EntityRelation.Joins EntityRelation.leaves EntityRelation.next
  by_cases hfrom : relation.fromEntityId = u
  · simp only [hfrom, Bool.and_eq_true, decide_eq_true_eq, Bool.or_eq_true, if_true]
    constructor
    · rintro ⟨hstatus, ⟨-, hto⟩ | ⟨hto, huv⟩⟩
      · exact ⟨⟨hstatus, .inl trivial⟩, hto⟩
      · exact ⟨⟨hstatus, .inl trivial⟩, hto.trans huv⟩
    · rintro ⟨⟨hstatus, -⟩, hto⟩
      exact ⟨hstatus, .inl ⟨trivial, hto⟩⟩
  · simp [hfrom, and_assoc]

/-- At most two relations lead from `start` to `e`. -/
def Reaches (relations : List (EntityRelation F)) (start e : String) : Prop :=
  (∃ relation ∈ relations, relation.Joins start e) ∨
    ∃ n, ∃ relation ∈ relations, ∃ relation' ∈ relations, relation.Joins start n ∧ relation'.Joins n e

/-- They do with confidences that reach the threshold. -/
def Qualifies (relations : List (EntityRelation F)) (threshold : F) (start e : String) : Prop :=
  (∃ relation ∈ relations, relation.Joins start e ∧ threshold ≤ relation.confidence) ∨
    ∃ n, ∃ relation ∈ relations, ∃ relation' ∈ relations, relation.Joins start n ∧ relation'.Joins n e ∧
      threshold ≤ relation.confidence ∧ threshold ≤ relation'.confidence

def IsListed (entities : List ResearchEntity) (e : String) : Prop :=
  ∃ entity, Table.find ResearchEntity.entityId e entities = some entity ∧ entity.listedCode.isSome

/-- **The companies are those reached, with the right flags.** -/
structure Right (entities : List ResearchEntity) (relations : List (EntityRelation F)) (threshold : F)
    (start : String) (results : List (RelatedListedEntity F)) : Prop where
  distinct : (results.map (·.entityId)).Nodup
  listed : ∀ e, e ∈ results.map (·.entityId) ↔ e ≠ start ∧ IsListed entities e ∧ Reaches relations start e
  eligible : ∀ row ∈ results, row.eligibleForAgent ↔ Qualifies relations threshold start row.entityId

/-- The search ends with them in every order of the relations. -/
def Exact [One F] (entities : List ResearchEntity) (relations : List (EntityRelation F)) (threshold : F)
    (start : String) : Prop :=
  ∀ relations' : List (EntityRelation F), relations'.Perm relations → ∃ turns results,
    (∀ n, turns < n → relatedListed entities relations' threshold n start = some results) ∧
      Right entities relations threshold start results

/-- No order decides: an entity with relations is not listed, the direct relations to a company pass the
threshold, or the ways of two where there is no direct one, unless no way passes it. -/
structure Unambiguous [One F] (entities : List ResearchEntity) (relations : List (EntityRelation F)) (threshold : F)
    (start : String) : Prop where
  unlisted : IsListed entities start → ∀ relation ∈ relations, ∀ e, ¬ relation.Joins start e
  direct : ∀ e, e ≠ start → IsListed entities e → (∃ relation ∈ relations, relation.Joins start e) →
    (∀ relation ∈ relations, relation.Joins start e → threshold ≤ min 1 relation.confidence) ∨
      ¬ Qualifies relations threshold start e
  indirect : ∀ e, e ≠ start → IsListed entities e → (¬ ∃ relation ∈ relations, relation.Joins start e) →
    (∀ n, ∀ relation ∈ relations, ∀ relation' ∈ relations, relation.Joins start n → relation'.Joins n e →
      threshold ≤ min (min 1 relation.confidence) relation'.confidence) ∨
      ¬ Qualifies relations threshold start e

/-! ## The search -/

/-- What an entry of the queue leads to. -/
def encounters (relations : List (EntityRelation F)) (visit : Visit F) : List (Visit F) :=
  (relations.filter (·.leaves visit.current)).map visit.follow

/-- The entries that are queued: the first to each entity that was not visited. -/
def fresh : List String → List (Visit F) → List (Visit F)
  | _, [] => []
  | visited, visit :: visits =>
    if visit.current ∈ visited then fresh visited visits
    else visit :: fresh (visit.current :: visited) visits

/-- What the search meets, in its order. -/
def met [One F] (relations : List (EntityRelation F)) (start : String) : List (Visit F) :=
  encounters relations (startVisit F start) ++
    (fresh [start] (encounters relations (startVisit F start))).flatMap (encounters relations)

/-- The rows that are entered, in their order. -/
def rowsOf (entities : List ResearchEntity) (threshold : F) (visits : List (Visit F)) :
    List (RelatedListedEntity F) :=
  visits.filterMap (listedRow entities threshold)

theorem mem_encounters {next : Visit F} : next ∈ encounters relations visit ↔
    ∃ relation ∈ relations, relation.Joins visit.current next.current ∧ next = visit.follow relation := by
  unfold encounters
  rw [List.mem_map]
  constructor
  · rintro ⟨relation, hmem, rfl⟩
    obtain ⟨hmem, hleaves⟩ := List.mem_filter.1 hmem
    exact ⟨relation, hmem, EntityRelation.joins_iff.2 ⟨hleaves, rfl⟩, rfl⟩
  · rintro ⟨relation, hmem, hjoins, rfl⟩
    exact ⟨relation, List.mem_filter.2 ⟨hmem, (EntityRelation.joins_iff.1 hjoins).1⟩, rfl⟩

/-- A relation from an entry is followed. -/
theorem follow_mem (hmem : relation ∈ relations) (visit : Visit F) (hjoins : relation.Joins visit.current v) :
    visit.follow relation ∈ encounters relations visit ∧ (visit.follow relation).current = v := by
  have hnext : relation.next visit.current = v := (EntityRelation.joins_iff.1 hjoins).2
  refine ⟨mem_encounters.2 ⟨relation, hmem, ?_, rfl⟩, hnext⟩
  show relation.Joins visit.current (relation.next visit.current)
  rw [hnext]
  exact hjoins

omit [LinearOrder F] in
theorem mem_fresh (h : visit ∈ fresh visited visits) : visit ∈ visits ∧ visit.current ∉ visited := by
  induction visits generalizing visited with
  | nil => exact absurd h List.not_mem_nil
  | cons first visits ih =>
    rw [fresh] at h
    split at h
    · obtain ⟨hmem, hnot⟩ := ih h
      exact ⟨List.mem_cons_of_mem _ hmem, hnot⟩
    · next hfirst =>
      rcases List.mem_cons.1 h with rfl | h
      · exact ⟨List.mem_cons_self, hfirst⟩
      · obtain ⟨hmem, hnot⟩ := ih h
        exact ⟨List.mem_cons_of_mem _ hmem, fun hvisited => hnot (List.mem_cons_of_mem _ hvisited)⟩

omit [LinearOrder F] in
theorem exists_fresh (h : visit ∈ visits) (hnot : visit.current ∉ visited) :
    ∃ first ∈ fresh visited visits, first.current = visit.current := by
  induction visits generalizing visited with
  | nil => exact absurd h List.not_mem_nil
  | cons head visits ih =>
    rw [fresh]
    by_cases hsame : head.current = visit.current
    · rw [if_neg (hsame ▸ hnot)]
      exact ⟨head, List.mem_cons_self, hsame⟩
    · have hrest : visit ∈ visits := (List.mem_cons.1 h).resolve_left fun heq => hsame (heq ▸ rfl)
      split
      · exact ih hrest hnot
      · have hnot' : visit.current ∉ head.current :: visited := by
          rw [List.mem_cons, not_or]
          exact ⟨Ne.symm hsame, hnot⟩
        obtain ⟨first, hmem, hfirst⟩ := ih hrest hnot'
        exact ⟨first, List.mem_cons_of_mem _ hmem, hfirst⟩

/-- The inner loop enters the rows and queues what is fresh. -/
theorem foldl_meet (entities : List ResearchEntity) (threshold : F) (visit : Visit F)
    (relations : List (EntityRelation F)) (state : RelatedState F) : ∃ visited,
    relations.foldl (meet entities threshold visit) state =
      { results := (rowsOf entities threshold (relations.map visit.follow)).foldl
          (orInsert RelatedListedEntity.entityId) state.results
        visited := visited
        queue := state.queue ++ fresh state.visited (relations.map visit.follow) } := by
  induction relations generalizing state with
  | nil => exact ⟨state.visited, by simp [rowsOf, fresh]⟩
  | cons relation relations ih =>
    have hresults : (rowsOf entities threshold ((relation :: relations).map visit.follow)).foldl
        (orInsert RelatedListedEntity.entityId) state.results =
        (rowsOf entities threshold (relations.map visit.follow)).foldl
          (orInsert RelatedListedEntity.entityId)
          (meet entities threshold visit state relation).results := by
      unfold rowsOf meet
      rw [List.map_cons, List.filterMap_cons]
      dsimp only
      by_cases hvisited : (visit.follow relation).current ∈ state.visited
      · rw [if_pos hvisited]
        cases listedRow entities threshold (visit.follow relation) <;> rfl
      · rw [if_neg hvisited]
        cases listedRow entities threshold (visit.follow relation) <;> rfl
    obtain ⟨visited, hfold⟩ := ih (meet entities threshold visit state relation)
    refine ⟨visited, ?_⟩
    rw [List.foldl_cons, hfold, hresults, List.map_cons, fresh]
    by_cases hvisited : (visit.follow relation).current ∈ state.visited
    · simp only [meet, if_pos hvisited] <;> rfl
    · simp only [meet, if_neg hvisited, List.append_assoc, List.singleton_append] <;> rfl

theorem turn_visit (entities : List ResearchEntity) (relations : List (EntityRelation F)) (threshold : F)
    (results : List (RelatedListedEntity F)) (visited : List String) (queue : List (Visit F))
    (hdepth : visit.depth < 2) : ∃ visited',
    relatedTurn entities relations threshold ⟨results, visited, visit :: queue⟩ =
      .again ⟨(rowsOf entities threshold (encounters relations visit)).foldl
        (orInsert RelatedListedEntity.entityId) results, visited',
        queue ++ fresh visited (encounters relations visit)⟩ := by
  obtain ⟨visited', hfold⟩ := foldl_meet entities threshold visit
    (relations.filter (·.leaves visit.current)) ⟨results, visited, queue⟩
  refine ⟨visited', ?_⟩
  unfold relatedTurn
  dsimp only
  rw [if_neg (by omega), hfold]
  rfl

/-- Entries at the full depth are dropped. -/
theorem run_drop {queue : List (Visit F)} (hdepth : ∀ visit ∈ queue, 2 ≤ visit.depth) (n : ℕ) :
    Loop.run (relatedTurn entities relations threshold) (queue.length + n) ⟨results, visited, queue⟩ =
      Loop.run (relatedTurn entities relations threshold) n ⟨results, visited, []⟩ := by
  induction queue with
  | nil => rw [List.length_nil, Nat.zero_add]
  | cons visit queue ih =>
    have hturn : relatedTurn entities relations threshold ⟨results, visited, visit :: queue⟩ =
        .again ⟨results, visited, queue⟩ := if_pos (hdepth visit List.mem_cons_self)
    rw [List.length_cons, Nat.add_right_comm, Loop.run_again hturn]
    exact ih fun v hv => hdepth v (List.mem_cons_of_mem _ hv)

theorem rowsOf_append (visits visits' : List (Visit F)) :
    rowsOf entities threshold (visits ++ visits') =
      rowsOf entities threshold visits ++ rowsOf entities threshold visits' := List.filterMap_append

/-- **Entries one relation away** are followed one after the other. -/
theorem run_level (entities : List ResearchEntity) (relations : List (EntityRelation F)) (threshold : F)
    {queue last : List (Visit F)} (hqueue : ∀ visit ∈ queue, visit.depth = 1)
    (hlast : ∀ visit ∈ last, 2 ≤ visit.depth) (results : List (RelatedListedEntity F))
    (visited : List String) : ∃ k, ∀ n, k < n →
    (Loop.run (relatedTurn entities relations threshold) n ⟨results, visited, queue ++ last⟩).map
      (·.results) = some ((rowsOf entities threshold (queue.flatMap (encounters relations))).foldl
        (orInsert RelatedListedEntity.entityId) results) := by
  induction queue generalizing results visited last with
  | nil =>
    refine ⟨last.length, fun n hn => ?_⟩
    obtain ⟨m, rfl⟩ : ∃ m, n = last.length + (m + 1) := ⟨n - last.length - 1, by omega⟩
    rw [List.nil_append, run_drop hlast, Loop.run_done rfl]
    rfl
  | cons visit queue ih =>
    have hone : visit.depth < 2 := by
      rw [hqueue visit List.mem_cons_self]
      omega
    obtain ⟨visited', hturn⟩ := turn_visit entities relations threshold results visited (queue ++ last) hone
    have hdepth : ∀ v ∈ last ++ fresh visited (encounters relations visit), 2 ≤ v.depth := by
      intro v hv
      rcases List.mem_append.1 hv with hv | hv
      · exact hlast v hv
      · obtain ⟨relation, -, -, rfl⟩ := mem_encounters.1 (mem_fresh hv).1
        show 2 ≤ visit.depth + 1
        rw [hqueue visit List.mem_cons_self]
    obtain ⟨k, hk⟩ := ih (fun v hv => hqueue v (List.mem_cons_of_mem _ hv)) hdepth
      ((rowsOf entities threshold (encounters relations visit)).foldl
        (orInsert RelatedListedEntity.entityId) results) visited'
    refine ⟨k + 1, fun n hn => ?_⟩
    obtain ⟨m, rfl⟩ : ∃ m, n = m + 1 := ⟨n - 1, by omega⟩
    rw [List.cons_append, Loop.run_again (hturn), List.append_assoc, hk m (by omega), List.flatMap_cons,
      rowsOf_append, List.foldl_append]

/-- **The search ends** with the first row that it meets of each company. -/
theorem relatedListed_eq [One F] (entities : List ResearchEntity) (relations : List (EntityRelation F))
    (threshold : F) (start : String) : ∃ k, ∀ n, k < n →
      relatedListed entities relations threshold n start =
        some ((rowsOf entities threshold (met relations start)).foldl
          (orInsert RelatedListedEntity.entityId) []) := by
  have hdepth : (startVisit F start).depth < 2 := Nat.zero_lt_two
  obtain ⟨visited, hturn⟩ := turn_visit entities relations threshold [] [start] [] hdepth
  have hfresh : ∀ v ∈ fresh [start] (encounters relations (startVisit F start)), v.depth = 1 := by
    intro v hv
    obtain ⟨relation, -, -, rfl⟩ := mem_encounters.1 (mem_fresh hv).1
    rfl
  have hlast : ∀ visit ∈ ([] : List (Visit F)), 2 ≤ visit.depth := fun _ h => absurd h List.not_mem_nil
  obtain ⟨k, hk⟩ := run_level entities relations threshold hfresh hlast
    ((rowsOf entities threshold (encounters relations (startVisit F start))).foldl
      (orInsert RelatedListedEntity.entityId) []) visited
  refine ⟨k + 1, fun n hn => ?_⟩
  obtain ⟨m, rfl⟩ : ∃ m, n = m + 1 := ⟨n - 1, by omega⟩
  have hm := hk m (by omega)
  rw [List.append_nil] at hm
  unfold relatedListed
  rw [Loop.run_again hturn, List.nil_append, hm, met,
    rowsOf_append, List.foldl_append]

/-! ## What the search meets -/

theorem listedRow_some (h : listedRow entities threshold visit = some row) :
    row.entityId = visit.current ∧ row.eligibleForAgent = decide (threshold ≤ visit.confidence) := by
  unfold listedRow at h
  obtain ⟨entity, hentity, hrow⟩ := Option.bind_eq_some_iff.1 h
  obtain ⟨code, -, rfl⟩ := Option.map_eq_some_iff.1 hrow
  have hid : entity.entityId = visit.current := Table.key_of_find hentity
  exact ⟨hid, rfl⟩

theorem listedRow_isSome_iff (entities : List ResearchEntity) (threshold : F) (visit : Visit F) :
    (listedRow entities threshold visit).isSome ↔ IsListed entities visit.current := by
  unfold listedRow IsListed
  cases Table.find ResearchEntity.entityId visit.current entities with
  | none => simp
  | some entity => simp

omit [LinearOrder F] in
theorem current_of_find (h : visits.find? (·.current = e) = some visit) : visit.current = e := by
  have hcurrent := List.find?_some h
  simpa using hcurrent

/-- The first row of a company is that of the first visit. -/
theorem find_rowsOf (visits : List (Visit F)) :
    Table.find RelatedListedEntity.entityId e (rowsOf entities threshold visits) =
      (visits.find? (·.current = e)).bind (listedRow entities threshold) := by
  induction visits with
  | nil => rfl
  | cons visit visits ih =>
    unfold rowsOf at ih ⊢
    by_cases hcurrent : visit.current = e
    · rw [List.find?_cons_of_pos (by simpa using hcurrent), Option.bind_some, List.filterMap_cons]
      cases hrow : listedRow entities threshold visit with
      | some row =>
        have hid : row.entityId = e := (listedRow_some hrow).1.trans hcurrent
        simp [Table.find, hid]
      | none =>
        -- no later visit of the same entity is listed either
        rw [Table.find_eq_none]
        intro row hrow' hid
        obtain ⟨later, -, hlater⟩ := List.mem_filterMap.1 hrow'
        have hsame : later.current = visit.current := by
          rw [← (listedRow_some hlater).1, hid, hcurrent]
        have hlisted : (listedRow entities threshold visit).isSome := by
          rw [listedRow_isSome_iff, ← hsame, ← listedRow_isSome_iff, hlater]
          rfl
        rw [hrow] at hlisted
        exact absurd hlisted (by simp)
    · rw [List.find?_cons_of_neg (by simpa using hcurrent), ← ih, List.filterMap_cons]
      cases hrow : listedRow entities threshold visit with
      | some row =>
        have hid : row.entityId ≠ e := fun h => hcurrent ((listedRow_some hrow).1.symm.trans h)
        simp [Table.find, hid]
      | none => rfl

section

variable [One F]

/-- **What the search meets** is what at most two relations lead to. -/
theorem meets_iff : (∃ visit ∈ met relations start, visit.current = e) ↔ Reaches relations start e := by
  unfold met
  constructor
  · rintro ⟨visit, hvisit, rfl⟩
    rcases List.mem_append.1 hvisit with hvisit | hvisit
    · obtain ⟨relation, hmem, hjoins, -⟩ := mem_encounters.1 hvisit
      exact .inl ⟨relation, hmem, hjoins⟩
    · obtain ⟨first, hfirst, hvisit⟩ := List.mem_flatMap.1 hvisit
      obtain ⟨relation, hmem, hjoins, -⟩ := mem_encounters.1 (mem_fresh hfirst).1
      obtain ⟨relation', hmem', hjoins', -⟩ := mem_encounters.1 hvisit
      exact .inr ⟨first.current, relation, hmem, relation', hmem', hjoins, hjoins'⟩
  · rintro (⟨relation, hmem, hjoins⟩ | ⟨n, relation, hmem, relation', hmem', hjoins, hjoins'⟩)
    · obtain ⟨hvisit, hcurrent⟩ := follow_mem hmem (startVisit F start) hjoins
      exact ⟨_, List.mem_append_left _ hvisit, hcurrent⟩
    · by_cases hn : n = start
      · rw [hn] at hjoins'
        obtain ⟨hvisit, hcurrent⟩ := follow_mem hmem' (startVisit F start) hjoins'
        exact ⟨_, List.mem_append_left _ hvisit, hcurrent⟩
      · obtain ⟨hvisit, hcurrent⟩ := follow_mem hmem (startVisit F start) hjoins
        have hnot : ((startVisit F start).follow relation).current ∉ [start] := by
          rw [hcurrent, List.mem_singleton]
          exact hn
        obtain ⟨first, hfirst, hsame⟩ := exists_fresh hvisit hnot
        rw [← hcurrent, ← hsame] at hjoins'
        obtain ⟨hvisit', hcurrent'⟩ := follow_mem hmem' first hjoins'
        exact ⟨_, List.mem_append_right _ (List.mem_flatMap.2 ⟨first, hfirst, hvisit'⟩), hcurrent'⟩

/-- The rows that the search ends with. -/
def found (entities : List ResearchEntity) (relations : List (EntityRelation F)) (threshold : F)
    (start : String) : List (RelatedListedEntity F) :=
  (rowsOf entities threshold (met relations start)).foldl (orInsert RelatedListedEntity.entityId) []

theorem nodup_found : ((found entities relations threshold start).map (·.entityId)).Nodup :=
  nodup_foldl_orInsert List.nodup_nil

/-- A row is found exactly if the first visit of its entity makes it. -/
theorem mem_found : row ∈ found entities relations threshold start ↔
    ∃ visit, (met relations start).find? (·.current = row.entityId) = some visit ∧
      listedRow entities threshold visit = some row := by
  have hfind : Table.find RelatedListedEntity.entityId row.entityId
      (found entities relations threshold start) =
        ((met relations start).find? (·.current = row.entityId)).bind (listedRow entities threshold) := by
    unfold found
    rw [find_foldl_orInsert, find_rowsOf]
    exact Option.none_or
  rw [← Option.bind_eq_some_iff, ← hfind]
  exact ⟨Table.find_of_mem nodup_found, Table.mem_of_find⟩

theorem mem_found_ids : e ∈ (found entities relations threshold start).map (·.entityId) ↔
    IsListed entities e ∧ Reaches relations start e := by
  rw [List.mem_map, ← meets_iff]
  constructor
  · rintro ⟨row, hrow, rfl⟩
    obtain ⟨visit, hvisit, hlisted⟩ := mem_found.1 hrow
    have hcurrent : visit.current = row.entityId := current_of_find hvisit
    refine ⟨?_, visit, List.mem_of_find?_eq_some hvisit, hcurrent⟩
    rw [← hcurrent, ← listedRow_isSome_iff entities threshold, hlisted]
    rfl
  · rintro ⟨hlisted, visit, hvisit, hcurrent⟩
    have hsome : ((met relations start).find? (·.current = e)).isSome :=
      List.find?_isSome.2 ⟨visit, hvisit, decide_eq_true hcurrent⟩
    obtain ⟨first, hfirst⟩ := Option.isSome_iff_exists.1 hsome
    have hsame : first.current = e := current_of_find hfirst
    rw [← hsame, ← listedRow_isSome_iff entities threshold] at hlisted
    obtain ⟨row, hrow⟩ := Option.isSome_iff_exists.1 hlisted
    have hid : row.entityId = e := (listedRow_some hrow).1.trans hsame
    exact ⟨row, mem_found.2 ⟨first, hid ▸ hfirst, hrow⟩, hid⟩

/-! ## Flags -/

/-- The first visit of a company, if one relation leads there. -/
theorem first_direct (h : (met relations start).find? (·.current = e) = some visit)
    (hdirect : ∃ relation ∈ relations, relation.Joins start e) :
    ∃ relation ∈ relations, relation.Joins start e ∧ visit.confidence = min 1 relation.confidence := by
  obtain ⟨relation, hmem, hjoins⟩ := hdirect
  obtain ⟨hmet, hnext⟩ := follow_mem hmem (startVisit F start) hjoins
  have hsome : ((encounters relations (startVisit F start)).find? (·.current = e)).isSome :=
    List.find?_isSome.2 ⟨_, hmet, decide_eq_true hnext⟩
  obtain ⟨first, hfirst⟩ := Option.isSome_iff_exists.1 hsome
  rw [met, List.find?_append, hfirst, Option.some_or] at h
  obtain rfl := Option.some_injective _ h
  obtain ⟨relation, hmem, hjoins, hvisit⟩ := mem_encounters.1 (List.mem_of_find?_eq_some hfirst)
  have hcurrent := current_of_find hfirst
  rw [hcurrent] at hjoins
  exact ⟨relation, hmem, hjoins, by rw [hvisit]; rfl⟩

/-- The first visit of a company that takes two relations. -/
theorem first_indirect (h : (met relations start).find? (·.current = e) = some visit)
    (hdirect : ¬ ∃ relation ∈ relations, relation.Joins start e) :
    ∃ n, ∃ relation ∈ relations, ∃ relation' ∈ relations, relation.Joins start n ∧ relation'.Joins n e ∧
      visit.confidence = min (min 1 relation.confidence) relation'.confidence := by
  have hcurrent := current_of_find h
  rcases List.mem_append.1 (List.mem_of_find?_eq_some h) with hvisit | hvisit
  · obtain ⟨relation, hmem, hjoins, -⟩ := mem_encounters.1 hvisit
    rw [hcurrent] at hjoins
    exact absurd ⟨relation, hmem, hjoins⟩ hdirect
  · obtain ⟨first, hfirst, hvisit⟩ := List.mem_flatMap.1 hvisit
    obtain ⟨relation, hmem, hjoins, hfollow⟩ := mem_encounters.1 (mem_fresh hfirst).1
    obtain ⟨relation', hmem', hjoins', hfollow'⟩ := mem_encounters.1 hvisit
    rw [hcurrent] at hjoins'
    refine ⟨first.current, relation, hmem, relation', hmem', hjoins, hjoins', ?_⟩
    rw [hfollow', hfollow]
    rfl

/-- **Where no order decides**, what is found is right. -/
theorem right_found (h : Unambiguous entities relations threshold start) :
    Right entities relations threshold start (found entities relations threshold start) where
  distinct := nodup_found
  listed e := by
    rw [mem_found_ids]
    constructor
    · rintro ⟨hlisted, hreaches⟩
      refine ⟨?_, hlisted, hreaches⟩
      rintro rfl
      rcases hreaches with ⟨relation, hmem, hjoins⟩ | ⟨n, relation, hmem, -, -, hjoins, -⟩
      · exact h.unlisted hlisted relation hmem _ hjoins
      · exact h.unlisted hlisted relation hmem n hjoins
    · rintro ⟨-, hlisted, hreaches⟩
      exact ⟨hlisted, hreaches⟩
  eligible row hrow := by
    obtain ⟨hlisted, hreaches⟩ := mem_found_ids.1 (List.mem_map_of_mem hrow)
    have hne : row.entityId ≠ start := by
      intro heq
      rw [heq] at hlisted hreaches
      rcases hreaches with ⟨relation, hmem, hjoins⟩ | ⟨n, relation, hmem, -, -, hjoins, -⟩
      · exact h.unlisted hlisted relation hmem _ hjoins
      · exact h.unlisted hlisted relation hmem n hjoins
    obtain ⟨visit, hvisit, hmade⟩ := mem_found.1 hrow
    rw [(listedRow_some hmade).2, decide_eq_true_eq]
    by_cases hdirect : ∃ relation ∈ relations, relation.Joins start row.entityId
    · obtain ⟨relation, hmem, hjoins, hconfidence⟩ := first_direct hvisit hdirect
      have hqualifies : threshold ≤ visit.confidence → Qualifies relations threshold start row.entityId := by
        intro hpass
        rw [hconfidence] at hpass
        exact .inl ⟨relation, hmem, hjoins, hpass.trans (min_le_right _ _)⟩
      refine ⟨hqualifies, fun hqualified => ?_⟩
      rcases h.direct _ hne hlisted hdirect with hall | hnone
      · rw [hconfidence]
        exact hall relation hmem hjoins
      · exact absurd hqualified hnone
    · obtain ⟨n, relation, hmem, relation', hmem', hjoins, hjoins', hconfidence⟩ :=
        first_indirect hvisit hdirect
      have hqualifies : threshold ≤ visit.confidence → Qualifies relations threshold start row.entityId := by
        intro hpass
        rw [hconfidence] at hpass
        obtain ⟨hpass, hpass'⟩ := le_min_iff.1 hpass
        exact .inr ⟨n, relation, hmem, relation', hmem', hjoins, hjoins', (le_min_iff.1 hpass).2, hpass'⟩
      refine ⟨hqualifies, fun hqualified => ?_⟩
      rcases h.indirect _ hne hlisted hdirect with hall | hnone
      · rw [hconfidence]
        exact hall n relation hmem relation' hmem' hjoins hjoins'
      · exact absurd hqualified hnone

/-! ## Every order -/

section

variable {relations' : List (EntityRelation F)}

omit [One F] [LinearOrder F] in
theorem reaches_perm (h : relations'.Perm relations) : Reaches relations' start e ↔ Reaches relations start e := by
  unfold Reaches
  simp only [h.mem_iff]

omit [One F] in
theorem qualifies_perm (h : relations'.Perm relations) :
    Qualifies relations' threshold start e ↔ Qualifies relations threshold start e := by
  unfold Qualifies
  simp only [h.mem_iff]

omit [One F] in
theorem right_perm (h : relations'.Perm relations) (hright : Right entities relations' threshold start results) :
    Right entities relations threshold start results where
  distinct := hright.distinct
  listed e := by rw [hright.listed, reaches_perm h]
  eligible row hrow := by rw [hright.eligible row hrow, qualifies_perm h]

theorem unambiguous_perm (h : relations'.Perm relations)
    (hclear : Unambiguous entities relations threshold start) :
    Unambiguous entities relations' threshold start where
  unlisted := by
    simp only [h.mem_iff]
    exact hclear.unlisted
  direct := by
    simp only [h.mem_iff, qualifies_perm h]
    exact hclear.direct
  indirect := by
    simp only [h.mem_iff, qualifies_perm h]
    exact hclear.indirect

/-- In an order in which the search is right, the first visit decides as it should. -/
theorem pass_of_right
    (hright : Right entities relations threshold start (found entities relations' threshold start))
    (hlisted : IsListed entities e) (hqualifies : Qualifies relations threshold start e)
    (hvisit : (met relations' start).find? (·.current = e) = some visit) : threshold ≤ visit.confidence := by
  have hcurrent := current_of_find hvisit
  rw [← hcurrent, ← listedRow_isSome_iff entities threshold] at hlisted
  obtain ⟨row, hrow⟩ := Option.isSome_iff_exists.1 hlisted
  have hid : row.entityId = e := (listedRow_some hrow).1.trans hcurrent
  have hfound : row ∈ found entities relations' threshold start := mem_found.2 ⟨visit, hid ▸ hvisit, hrow⟩
  have hflag := (hright.eligible row hfound).2 (hid ▸ hqualifies)
  rw [(listedRow_some hrow).2] at hflag
  exact of_decide_eq_true hflag

theorem exact_found (h : Exact entities relations threshold start) (hperm : relations'.Perm relations) :
    Right entities relations threshold start (found entities relations' threshold start) := by
  obtain ⟨turns, results, hrun, hright⟩ := h relations' hperm
  obtain ⟨k, hk⟩ := relatedListed_eq entities relations' threshold start
  have heq := (hrun (turns + k + 1) (by omega)).symm.trans (hk (turns + k + 1) (by omega))
  rw [Option.some_injective _ heq] at hright
  exact hright

end

/-- **Companies and eligibility are exact in every order of the relations** exactly if no order decides. -/
theorem related_listed_exact_iff (entities : List ResearchEntity) (relations : List (EntityRelation F))
    (threshold : F) (start : String) :
    Exact entities relations threshold start ↔ Unambiguous entities relations threshold start := by
  constructor
  · intro h
    constructor
    case unlisted =>
      intro hlisted relation hmem e hjoins
      have hmet : start ∈ (found entities relations threshold start).map (·.entityId) :=
        mem_found_ids.2 ⟨hlisted, .inr ⟨e, relation, hmem, relation, hmem, hjoins, hjoins.symm⟩⟩
      exact (((exact_found h (.refl _)).listed start).1 hmet).1 rfl
    case direct =>
      intro e hne hlisted _
      by_contra hboth
      rw [not_or, not_not] at hboth
      obtain ⟨hsome, hqualifies⟩ := hboth
      push Not at hsome
      obtain ⟨relation, hmem, hjoins, hlow⟩ := hsome
      -- the relation that fails is moved to the front
      obtain ⟨before, after, rfl⟩ := List.append_of_mem hmem
      have hperm : (relation :: (before ++ after)).Perm (before ++ relation :: after) :=
        List.perm_middle.symm
      have hleaves := EntityRelation.joins_iff.1 hjoins
      have hvisit : (met (relation :: (before ++ after)) start).find? (·.current = e) =
          some ((startVisit F start).follow relation) := by
        have hcurrent : ((startVisit F start).follow relation).current = e := hleaves.2
        have hfirst : (startVisit F start).current = start := rfl
        rw [met, encounters, List.filter_cons_of_pos (by rw [hfirst]; exact hleaves.1), List.map_cons,
          List.cons_append, List.find?_cons_of_pos (by simpa using hcurrent)]
      have hpass := pass_of_right (exact_found h hperm) hlisted hqualifies hvisit
      exact absurd hpass (not_le.2 hlow)
    case indirect =>
      intro e hne hlisted hdirect
      by_contra hboth
      rw [not_or, not_not] at hboth
      obtain ⟨hsome, hqualifies⟩ := hboth
      push Not at hsome
      obtain ⟨n, relation, hmem, relation', hmem', hjoins, hjoins', hlow⟩ := hsome
      have hn : n ≠ start := by
        rintro rfl
        exact hdirect ⟨relation', hmem', hjoins'⟩
      have hdistinct : relation' ≠ relation := by
        rintro rfl
        rcases hjoins.2 with ⟨hu, hv⟩ | ⟨hu, hv⟩ <;> rcases hjoins'.2 with ⟨hu', hv'⟩ | ⟨hu', hv'⟩
        · exact hn (hu'.symm.trans hu)
        · exact hne (hv'.symm.trans hu)
        · exact hne (hv'.symm.trans hu)
        · exact hn (hu'.symm.trans hu)
      -- the two relations are moved to the front
      obtain ⟨before, after, rfl⟩ := List.append_of_mem hmem
      have hrest : relation' ∈ before ++ after := by
        rcases List.mem_append.1 hmem' with hmem' | hmem'
        · exact List.mem_append_left _ hmem'
        · exact List.mem_append_right _ ((List.mem_cons.1 hmem').resolve_left hdistinct)
      obtain ⟨before', after', hsplit⟩ := List.append_of_mem hrest
      have hperm : (relation :: relation' :: (before' ++ after')).Perm (before ++ relation :: after) := by
        refine List.Perm.trans (.cons _ ?_) List.perm_middle.symm
        rw [hsplit]
        exact List.perm_middle.symm
      have hleaves := EntityRelation.joins_iff.1 hjoins
      have hleaves' := EntityRelation.joins_iff.1 hjoins'
      have hback := EntityRelation.joins_iff.1 hjoins.symm
      have hfirst : (startVisit F start).current = start := rfl
      have hcurrent : ((startVisit F start).follow relation).current = n := hleaves.2
      have hnone : (encounters (relation :: relation' :: (before' ++ after')) (startVisit F start)).find?
          (·.current = e) = none := by
        rw [List.find?_eq_none]
        intro visit hvisit hsame
        obtain ⟨direct, hdirect', hjoinsdirect, -⟩ := mem_encounters.1 hvisit
        rw [of_decide_eq_true hsame] at hjoinsdirect
        exact hdirect ⟨direct, hperm.mem_iff.1 hdirect', hjoinsdirect⟩
      have hencounters : encounters (relation :: relation' :: (before' ++ after')) (startVisit F start) =
          (startVisit F start).follow relation ::
            encounters (relation' :: (before' ++ after')) (startVisit F start) := by
        unfold encounters
        rw [List.filter_cons_of_pos (by rw [hfirst]; exact hleaves.1), List.map_cons]
      have hsecond : encounters (relation :: relation' :: (before' ++ after'))
          ((startVisit F start).follow relation) =
          ((startVisit F start).follow relation).follow relation ::
            ((startVisit F start).follow relation).follow relation' ::
              encounters (before' ++ after') ((startVisit F start).follow relation) := by
        unfold encounters
        rw [List.filter_cons_of_pos (by rw [hcurrent]; exact hback.1),
          List.filter_cons_of_pos (by rw [hcurrent]; exact hleaves'.1), List.map_cons, List.map_cons]
      have hvisit : (met (relation :: relation' :: (before' ++ after')) start).find? (·.current = e) =
          some (((startVisit F start).follow relation).follow relation') := by
        have hbackcurrent : (((startVisit F start).follow relation).follow relation).current = start := by
          show relation.next ((startVisit F start).follow relation).current = start
          rw [hcurrent]
          exact hback.2
        have hnextcurrent : (((startVisit F start).follow relation).follow relation').current = e := by
          show relation'.next ((startVisit F start).follow relation).current = e
          rw [hcurrent]
          exact hleaves'.2
        have hnot : ((startVisit F start).follow relation).current ∉ [start] := by
          rw [hcurrent, List.mem_singleton]
          exact hn
        rw [met, List.find?_append, hnone, Option.none_or, hencounters, fresh, if_neg hnot, List.flatMap_cons,
          hsecond, List.cons_append, List.cons_append,
          List.find?_cons_of_neg (by rw [hbackcurrent]; simpa using Ne.symm hne),
          List.find?_cons_of_pos (by rw [hnextcurrent]; simp)]
      have hpass := pass_of_right (exact_found h hperm) hlisted hqualifies hvisit
      exact absurd hpass (not_le.2 hlow)
  · intro h relations' hperm
    obtain ⟨k, hk⟩ := relatedListed_eq entities relations' threshold start
    exact ⟨k, _, hk, right_perm hperm (right_found (unambiguous_perm hperm h))⟩

end

/-- A company whose subsidiary is known is related to itself. -/
theorem related_to_itself : ¬ ∀ (entities : List ResearchEntity) (relations : List (EntityRelation ℚ))
    (threshold : ℚ) (start : String), Exact entities relations threshold start := by
  intro h
  have hexact := h [⟨"listed:cn:600519", "贵州茅台", some "600519", .listedSecurity, none, [], [], none, none⟩]
    [⟨"subsidiary", "listed:cn:600519", "subsidiary_of", 1, "accepted"⟩] (17 / 20) "listed:cn:600519"
  refine ((related_listed_exact_iff _ _ _ _).1 hexact).unlisted ⟨_, rfl, rfl⟩ _ List.mem_cons_self "subsidiary" ?_
  exact ⟨rfl, .inr ⟨rfl, rfl⟩⟩

end Astock.Linking
