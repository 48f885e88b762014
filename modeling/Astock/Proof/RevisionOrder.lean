import Astock.Proof.CurrentGraph

/-!
# The order of the revisions

* `RevisionChange`: what a call does to the revisions on record, one row at a time, and
  `call_revises`: a call is a chain of these.
* `InOrder`, `KeptRows`: how the revisions of an identity are numbered and what they cite, and what stays of
  a revision.
* `Current`: the revision of an identity that counts at two times; `mem_edges` and `edges_nodup`: the
  edges of a snapshot are these.
* `revisions_in_order`: the invariants of every graph that calls lead to.
-/

namespace Astock

open Prog Bitemporal

attribute [local irreducible] Triple

variable {F : Type} {digest : ℕ → String → String} {g g' : GraphStore F}
  {input : EdgeRevisionInput F} {rows rows' : List (RevisionRow F)} {b k : ℤ} {r : EdgeRevision F}

/-! ## Changes of the revisions -/

/-- The numbers of the revisions of an identity, in the order of the table. -/
def numbers (rows : List (RevisionRow F)) (identityId : String) : List ℕ :=
  (rows.filter (·.identityId = identityId)).map (·.revisionNo)

/-- The revision that a row supersedes is among `rows`, and of the same identity. -/
def Cites (rows : List (RevisionRow F)) (row : RevisionRow F) : Prop :=
  ∀ previous ∈ row.supersedesRevisionId,
    ∃ q ∈ rows, q.revisionId = previous ∧ q.identityId = row.identityId

/-- A change of the revisions on record. -/
inductive RevisionChange (rows : List (RevisionRow F)) : List (RevisionRow F) → Prop
  | supersede (revisionId : String) (t : ℤ) : RevisionChange rows
      (Table.update RevisionRow.revisionId revisionId (·.supersede t) rows)
  | add (row : RevisionRow F) :
      row.revisionNo = (numbers rows row.identityId).max?.getD 0 + 1 → Cites rows row →
      RevisionChange rows (rows ++ [row])

/-- The revisions on record go through a chain of changes. -/
def RevisionsChange (g g' : GraphStore F) : Prop :=
  Relation.ReflTransGen RevisionChange g.revisions g'.revisions

theorem RevisionsChange.refl (g : GraphStore F) : RevisionsChange g g := Relation.ReflTransGen.refl

theorem RevisionsChange.trans {g₁ g₂ g₃ : GraphStore F} (h : RevisionsChange g₁ g₂)
    (h' : RevisionsChange g₂ g₃) : RevisionsChange g₁ g₃ := Relation.ReflTransGen.trans h h'

theorem revisionsChange_of_eq (h : g'.revisions = g.revisions) : RevisionsChange g g' := by
  unfold RevisionsChange
  rw [h]

theorem Ensured.revisions {identityId : String} (h : Ensured digest input g identityId g') :
    g'.revisions = g.revisions := by
  cases h with
  | found _ _ => rfl
  | added _ _ => rfl

theorem Superseded.revisionsChange {identityId : String} (h : Superseded input identityId g g') :
    RevisionsChange g g' := by
  cases h with
  | no _ => exact .refl g
  | previous row _ _ _ _ => exact .single (.supersede row.revisionId input.recordedAt)

/-- What an input supersedes is on record before it. -/
theorem Superseded.cites {identityId : String} (h : Superseded input identityId g g')
    {row : RevisionRow F} (hid : row.identityId = identityId)
    (hprevious : row.supersedesRevisionId = input.supersedesRevisionId) : Cites g'.revisions row := by
  intro p hp
  rw [hprevious] at hp
  cases h with
  | no hnone =>
    rw [hnone] at hp
    cases hp
  | previous q hq hfind hidentity _ =>
    rw [hq] at hp
    obtain rfl := Option.some.inj hp
    have hfound := find_supersede g q.revisionId q.revisionId input.recordedAt
    rw [hfind, Option.map_some, if_pos rfl] at hfound
    exact ⟨_, Table.mem_of_find hfound, rfl, hidentity.trans hid.symm⟩

variable [F64 F]

theorem RevisionRecorded.revisionsChange {saved : EdgeRevision F}
    (h : RevisionRecorded digest input g saved g') : RevisionsChange g g' := by
  cases h with
  | again identityId _ _ hensured _ => exact revisionsChange_of_eq hensured.revisions
  | anew identityId g₁ g₂ _ hensured hnew hsup _ =>
    have hfirst : RevisionsChange g g₁ := revisionsChange_of_eq hensured.revisions
    refine (hfirst.trans hsup.revisionsChange).tail (.add _ ?_ (hsup.cites rfl rfl))
    exact ((hsup.same hnew).2.2.symm :)

/-- **A call changes the revisions** row by row. -/
theorem call_revises (call : GraphCall F) (g : GraphStore F) :
    RevisionsChange g (g.after digest call) :=
  call_steps (fun _ _ _ h h' => h.trans h') (fun _ _ h _ => revisionsChange_of_eq h)
    (fun _ _ _ _ h => h.revisionsChange) call g

/-! ## What a change keeps -/

section Order

omit [F64 F]

/-- Of a revision on record, only the end of its knowledge time changes, and that moves back. -/
def RowKept (row row' : RevisionRow F) : Prop :=
  row'.face = row.face ∧ ∀ t ∈ row.supersededAt, ∃ t' ∈ row'.supersededAt, t' ≤ t

theorem RowKept.refl (row : RevisionRow F) : RowKept row row := ⟨rfl, fun t ht => ⟨t, ht, le_rfl⟩⟩

theorem RowKept.trans {row₁ row₂ row₃ : RevisionRow F} (h : RowKept row₁ row₂) (h' : RowKept row₂ row₃) :
    RowKept row₁ row₃ := by
  refine ⟨h'.1.trans h.1, fun t ht => ?_⟩
  obtain ⟨t', ht', hle⟩ := h.2 t ht
  obtain ⟨t'', ht'', hle'⟩ := h'.2 t' ht'
  exact ⟨t'', ht'', hle'.trans hle⟩

theorem kept_supersede (row : RevisionRow F) (t : ℤ) : RowKept row (row.supersede t) := by
  refine ⟨rfl, fun u hu => ⟨min t u, ?_, min_le_right t u⟩⟩
  have hsuperseded : row.supersededAt = some u := hu
  show (row.supersede t).supersededAt = some (min t u)
  simp [RevisionRow.supersede, RevisionRow.stamp, Stamp.supersede, hsuperseded, min_comm]

/-- The rows stay in their places. -/
def KeptRows (rows rows' : List (RevisionRow F)) : Prop :=
  ∀ (i : ℕ) row, rows[i]? = some row → ∃ row', rows'[i]? = some row' ∧ RowKept row row'

theorem RevisionChange.keptRows (h : RevisionChange rows rows') : KeptRows rows rows' := by
  intro i row hrow
  cases h with
  | supersede revisionId t =>
    refine ⟨_, by rw [Table.update, List.getElem?_map, hrow, Option.map_some], ?_⟩
    split
    · exact kept_supersede row t
    · exact .refl row
  | add new _ _ =>
    have hlt : i < rows.length := (List.getElem?_eq_some_iff.1 hrow).1
    exact ⟨row, by rw [List.getElem?_append_left hlt, hrow], .refl row⟩

theorem KeptRows.trans {rows₁ rows₂ rows₃ : List (RevisionRow F)} (h : KeptRows rows₁ rows₂)
    (h' : KeptRows rows₂ rows₃) : KeptRows rows₁ rows₃ := by
  intro i row hrow
  obtain ⟨row', hrow', hkept⟩ := h i row hrow
  obtain ⟨row'', hrow'', hkept'⟩ := h' i row' hrow'
  exact ⟨row'', hrow'', hkept.trans hkept'⟩

theorem RevisionsChange.keptRows (h : RevisionsChange g g') : KeptRows g.revisions g'.revisions := by
  unfold RevisionsChange at h
  generalize g.revisions = rows, g'.revisions = rows' at h
  induction h with
  | refl => exact fun i row hrow => ⟨row, hrow, .refl row⟩
  | tail _ hchange ih => exact ih.trans hchange.keptRows

/-- The revisions of an identity are numbered from 1 in the order in which they were recorded, and what
a revision supersedes was recorded before it. -/
structure InOrder (rows : List (RevisionRow F)) : Prop where
  numbered : ∀ identityId, numbers rows identityId = List.range' 1 (numbers rows identityId).length
  cites : ∀ (i : ℕ) row, rows[i]? = some row → Cites (rows.take i) row

theorem max_range' (n : ℕ) : (List.range' 1 n).max?.getD 0 = n := by
  cases n with
  | zero => rfl
  | succ n =>
    have hmax : (List.range' 1 (n + 1)).max? = some (n + 1) := by
      rw [List.max?_eq_some_iff]
      refine ⟨List.mem_range'_1.2 ⟨by omega, by omega⟩, fun m hm => ?_⟩
      have hlt := (List.mem_range'_1.1 hm).2
      omega
    rw [hmax, Option.getD_some]

theorem numbers_append (rows : List (RevisionRow F)) (row : RevisionRow F) (identityId : String) :
    numbers (rows ++ [row]) identityId =
      numbers rows identityId ++ if row.identityId = identityId then [row.revisionNo] else [] := by
  unfold numbers
  rw [List.filter_append, List.map_append]
  by_cases hid : row.identityId = identityId
  · simp [hid]
  · simp [hid]

theorem numbers_update (rows : List (RevisionRow F)) (revisionId : String) (t : ℤ) (identityId : String) :
    numbers (Table.update RevisionRow.revisionId revisionId (·.supersede t) rows) identityId =
      numbers rows identityId := by
  induction rows with
  | nil => rfl
  | cons row rest ih =>
    unfold numbers Table.update RevisionRow.supersede at *
    by_cases hid : row.revisionId = revisionId <;> by_cases hrow : row.identityId = identityId <;>
      simp [hid, hrow, ih]

theorem InOrder.change (h : InOrder rows) (hchange : RevisionChange rows rows') : InOrder rows' := by
  cases hchange with
  | supersede revisionId t =>
    refine ⟨fun identityId => by rw [numbers_update]; exact h.numbered identityId, ?_⟩
    intro i row hrow p hp
    -- the rows keep their places, identifiers and citations
    rw [Table.update, List.getElem?_map] at hrow
    obtain ⟨row₀, hrow₀, rfl⟩ := Option.map_eq_some_iff.1 hrow
    have hsame : ∀ x : RevisionRow F,
        (if x.revisionId = revisionId then x.supersede t else x).face = x.face := by
      intro x
      split
      · rfl
      · rfl
    have hp₀ : p ∈ row₀.supersedesRevisionId := by
      have := congrArg RevisionRow.supersedesRevisionId (hsame row₀)
      exact (this.symm.trans hp :)
    obtain ⟨q, hq, hqp, hqid⟩ := h.cites i row₀ hrow₀ p hp₀
    have hid := congrArg RevisionRow.identityId (hsame row₀)
    have hqid' := congrArg RevisionRow.identityId (hsame q)
    have hqp' := congrArg RevisionRow.revisionId (hsame q)
    have hmem : (if q.revisionId = revisionId then q.supersede t else q) ∈
        (Table.update RevisionRow.revisionId revisionId (·.supersede t) rows).take i := by
      rw [Table.update, ← List.map_take]
      exact List.mem_map_of_mem hq
    exact ⟨_, hmem, hqp'.trans hqp, hqid'.trans (hqid.trans hid.symm)⟩
  | add new hno hnew =>
    refine ⟨fun identityId => ?_, fun i row hrow => ?_⟩
    · rw [numbers_append]
      split
      next hid =>
        rw [hno, hid, h.numbered identityId, max_range', List.length_append, List.length_range',
          List.length_singleton, List.range'_1_concat, Nat.add_comm 1]
      next => rw [List.append_nil]; exact h.numbered identityId
    · by_cases hlt : i < rows.length
      · rw [List.getElem?_append_left hlt] at hrow
        rw [List.take_append_of_le_length (by omega)]
        exact h.cites i row hrow
      · rw [List.getElem?_append_right (by omega)] at hrow
        have hi : i - rows.length = 0 := by
          have := (List.getElem?_eq_some_iff.1 hrow).1
          rw [List.length_singleton] at this
          omega
        rw [hi] at hrow
        obtain rfl := Option.some.inj hrow
        have hlength : i = rows.length := by omega
        rw [hlength, List.take_left]
        exact hnew

theorem inOrder_empty : InOrder ([] : List (RevisionRow F)) where
  numbered := fun _ => rfl
  cites := fun _ _ h => by simp at h

theorem RevisionsChange.inOrder (h : RevisionsChange g g') (hg : InOrder g.revisions) :
    InOrder g'.revisions := by
  unfold RevisionsChange at h
  generalize g.revisions = rows, g'.revisions = rows' at h hg
  induction h with
  | refl => exact hg
  | tail _ hchange ih => exact ih.change hchange

/-! ## The revision that counts -/

/-- The revision of an identity that counts at two times: of those recorded by the knowledge time, not
superseded by then and valid at the business time, the one of the highest rank. -/
structure GraphStore.Current (g : GraphStore F) (b k : ℤ) (r : EdgeRevision F) : Prop where
  mem : r ∈ g.history
  seen : r.stamp.Seen b k
  latest : ∀ r' ∈ g.history, r'.stamp.Seen b k → r'.identityId = r.identityId → r'.rank ≤ r.rank

theorem mem_load : r ∈ g.loadAsOfRevisions b k ↔ r ∈ g.history ∧ r.stamp.Seen b k := by
  unfold GraphStore.loadAsOfRevisions
  rw [List.mem_insertionSort, List.mem_filterMap]
  constructor
  · rintro ⟨row, hrow, hjoin⟩
    obtain ⟨hmem, hseen⟩ := mem_asOf.1 hrow
    refine ⟨mem_graph_history.2 ⟨row, hmem, hjoin⟩, ?_⟩
    obtain ⟨identity, -, rfl⟩ := Option.map_eq_some_iff.1 hjoin
    exact hseen
  · rintro ⟨hmem, hseen⟩
    obtain ⟨row, hrow, hjoin⟩ := mem_graph_history.1 hmem
    refine ⟨row, mem_asOf.2 ⟨hrow, ?_⟩, hjoin⟩
    obtain ⟨identity, -, rfl⟩ := Option.map_eq_some_iff.1 hjoin
    exact hseen

/-- The revisions that were loaded are told apart by identity and rank. -/
theorem load_inj (hg : g.WF digest) {l : List (EdgeRevision F)} (hl : ∀ r ∈ l, r ∈ g.history) :
    ∀ r ∈ l, ∀ r' ∈ l, r.identityId = r'.identityId → r.rank = r'.rank → r = r' :=
  fun r hr r' hr' => history_inj hg (hl r hr) (hl r' hr')

/-- **The selection of a snapshot** is the revisions that count. -/
theorem mem_selected (hg : g.WF digest) :
    r ∈ selectLatest (g.loadAsOfRevisions b k) ↔ g.Current b k r := by
  rw [mem_selectLatest (load_inj hg fun r hr => (mem_load.1 hr).1), mem_load]
  constructor
  · rintro ⟨⟨hmem, hseen⟩, hlatest⟩
    exact ⟨hmem, hseen, fun r' hr' hseen' => hlatest r' (mem_load.2 ⟨hr', hseen'⟩)⟩
  · rintro ⟨hmem, hseen, hlatest⟩
    refine ⟨⟨hmem, hseen⟩, fun r' hr' => ?_⟩
    obtain ⟨hmem', hseen'⟩ := mem_load.1 hr'
    exact hlatest r' hmem' hseen'

theorem nodup_selectLatest (l : List (EdgeRevision F)) :
    ((selectLatest l).map fun r => r.identityId).Nodup := by
  have hfold : ∀ (l selected : List (EdgeRevision F)), (selected.map fun r => r.identityId).Nodup →
      ((l.foldl keepLatest selected).map fun r => r.identityId).Nodup := by
    intro l
    induction l with
    | nil => exact fun _ h => h
    | cons r rest ih =>
      intro selected h
      refine ih _ ?_
      unfold keepLatest
      dsimp only
      split
      · exact Table.nodup_insertOrdered h
      · exact h
  exact hfold l [] List.nodup_nil

end Order

theorem mem_edges (hg : g.WF digest) {e : SnapshotEdge F} : e ∈ (g.snapshotAt digest b k).edges ↔
    ∃ r, g.Current b k r ∧ (r.statusAt k).visibleInActiveGraph ∧
      e = r.snapshotEdge k (mergeMap (g.loadAsOfMerges b k)) := by
  unfold GraphStore.snapshotAt buildSnapshot
  dsimp only
  rw [List.mem_insertionSort, List.mem_map]
  constructor
  · rintro ⟨r, hr, rfl⟩
    obtain ⟨hmem, hvisible⟩ := List.mem_filter.1 hr
    exact ⟨r, (mem_selected hg).1 hmem, hvisible, rfl⟩
  · rintro ⟨r, hr, hvisible, rfl⟩
    exact ⟨r, List.mem_filter.2 ⟨(mem_selected hg).2 hr, hvisible⟩, rfl⟩

theorem edges_nodup (g : GraphStore F) (b k : ℤ) :
    ((g.snapshotAt digest b k).edges.map (·.identityId)).Nodup := by
  unfold GraphStore.snapshotAt buildSnapshot
  dsimp only
  refine (((List.perm_insertionSort _ _).map _).nodup_iff).2 ?_
  rw [List.map_map]
  have hsame : ((·.identityId) ∘ fun r : EdgeRevision F =>
      r.snapshotEdge k (mergeMap (g.loadAsOfMerges b k))) = fun r => r.identityId := rfl
  rw [hsame]
  exact (nodup_selectLatest _).sublist (List.filter_sublist.map _)

/-! ## Runs -/

theorem kept_run (calls : List (GraphCall F)) (g : GraphStore F) :
    RevisionsChange g (Run.run (GraphStore.after digest) g calls) := by
  induction calls generalizing g with
  | nil => exact .refl g
  | cons c calls ih => exact (call_revises c g).trans (ih _)

/-- **The revisions of the graph**, after any calls: they are numbered in the order in which they were
recorded and cite earlier ones of their identity, no later call changes them but for the end of their
knowledge time, which moves back, a call that is refused changes nothing, and a snapshot shows of each
identity the revision that counts, or nothing when its status is not shown. -/
theorem revisions_in_order (digest : ℕ → String → String) (g : GraphStore F) (hg : g.Reachable digest) :
    InOrder g.revisions ∧
    (∀ calls, KeptRows g.revisions (Run.run (GraphStore.after digest) g calls).revisions) ∧
    (∀ input e g', exec (recordRevisionAt digest input) g = (.error e, g') → g' = g) ∧
    ∀ now b k, 0 ≤ b → 0 ≤ k → ∃ snapshot, (exec (graphAsOf digest now b k) g).1 = .ok snapshot ∧
      (snapshot.edges.map (·.identityId)).Nodup ∧
      ∀ e, e ∈ snapshot.edges ↔ ∃ r, g.Current b k r ∧ (r.statusAt k).visibleInActiveGraph ∧
        e = r.snapshotEdge k (mergeMap (g.loadAsOfMerges b k)) := by
  refine ⟨?_, fun calls => (kept_run calls g).keptRows, fun input e g' h => ?_, ?_⟩
  · obtain ⟨calls, rfl⟩ := hg
    exact (kept_run calls {}).inOrder inOrder_empty
  · exact (recordRevisionAt_spec digest input g).error rfl h
  · intro now b k hb hk
    obtain ⟨g', hexec, -⟩ := exec_graphAsOf digest now b k hb hk g
    refine ⟨g.snapshotAt digest b k, by rw [hexec], edges_nodup g b k, fun e => ?_⟩
    exact mem_edges (reachable_wf hg)

theorem revisions_in_order_sales : InOrder sales2024.revisions ∧
    ∃ snapshot, (exec (graphAsOf salesDigest 300 150 130) sales2024).1 = .ok snapshot := by
  have h := revisions_in_order salesDigest sales2024 ⟨_, rfl⟩
  obtain ⟨snapshot, hsnapshot, -⟩ := h.2.2.2 300 150 130 (by decide) (by decide)
  exact ⟨h.1, snapshot, hsnapshot⟩

end Astock
