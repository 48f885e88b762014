import Astock.Proof.Snapshots

/-!
# The current projection and the history

* `mem_selectLatest`: what the selection of a snapshot keeps; `mem_snapshotAt_edges`: the edges
  of a snapshot of the present are the relations that hold, each by its latest revision.
* `Decides`: the revision recorded last has the last word on its relation, at a given time.
* `projection_agrees`: while every call has the last word, the projection and the history hold
  the same relations.
-/

namespace Astock

open Prog Bitemporal

attribute [local irreducible] Triple

variable {F : Type} {digest : ℕ → String → String} {g g₁ : GraphStore F} {now : ℤ}
  {input : EdgeRevisionInput F} {saved r : EdgeRevision F}

/-! ## The selection of a snapshot -/

/-- What is kept of the revisions seen so far. -/
structure KeepsLatest (seen selected : List (EdgeRevision F)) : Prop where
  mem : ∀ r ∈ selected, r ∈ seen
  latest : ∀ r ∈ selected, ∀ r' ∈ seen, r'.identityId = r.identityId → r'.rank ≤ r.rank
  covers : ∀ r ∈ seen, ∃ r' ∈ selected, r'.identityId = r.identityId

theorem KeepsLatest.step {seen selected : List (EdgeRevision F)} (h : KeepsLatest seen selected)
    (x : EdgeRevision F) : KeepsLatest (seen ++ [x]) (keepLatest selected x) := by
  unfold keepLatest
  dsimp only
  split
  · -- `x` replaces what was kept of its identity
    rename_i hnewest
    have hbelow : ∀ r ∈ seen, r.identityId = x.identityId → r.rank ≤ x.rank := by
      intro r hr hid
      obtain ⟨r', hr', hid'⟩ := h.covers r hr
      cases hold : Table.find (fun r : EdgeRevision F => r.identityId) x.identityId selected with
      | none => exact absurd (hid'.trans hid) ((Table.find_eq_none _).1 hold r' hr')
      | some old =>
        rw [hold, Option.all_some, decide_eq_true_iff] at hnewest
        have hold' := Table.key_of_find hold
        exact (h.latest old (Table.mem_of_find hold) r hr (hid.trans hold'.symm)).trans
          (le_of_lt hnewest)
    refine ⟨fun r hr => ?_, fun r hr r' hr' hid => ?_, fun r hr => ?_⟩
    · rcases Table.mem_insertOrdered.1 hr with rfl | ⟨hr, -⟩
      · exact List.mem_append_right _ (List.mem_singleton_self _)
      · exact List.mem_append_left _ (h.mem r hr)
    · rcases Table.mem_insertOrdered.1 hr with rfl | ⟨hr, hne⟩
      · rcases List.mem_append.1 hr' with hr' | hr'
        · exact hbelow r' hr' hid
        · exact le_of_eq (congrArg _ (List.mem_singleton.1 hr'))
      · rcases List.mem_append.1 hr' with hr' | hr'
        · exact h.latest r hr r' hr' hid
        · rw [List.mem_singleton.1 hr'] at hid
          exact absurd hid.symm hne
    · by_cases hid : r.identityId = x.identityId
      · exact ⟨x, Table.mem_insertOrdered.2 (.inl rfl), hid.symm⟩
      · rcases List.mem_append.1 hr with hr | hr
        · obtain ⟨r', hr', hid'⟩ := h.covers r hr
          exact ⟨r', Table.mem_insertOrdered.2 (.inr ⟨hr', fun heq => hid (hid'.symm.trans heq)⟩), hid'⟩
        · rw [List.mem_singleton.1 hr] at hid
          exact absurd rfl hid
  · -- the one kept of its identity is as high as `x`
    rename_i hkept
    obtain ⟨old, hold, hrank⟩ : ∃ old, Table.find (fun r : EdgeRevision F => r.identityId)
        x.identityId selected = some old ∧ x.rank ≤ old.rank := by
      cases hold : Table.find (fun r : EdgeRevision F => r.identityId) x.identityId selected with
      | none => rw [hold] at hkept; exact absurd rfl hkept
      | some old =>
        rw [hold, Option.all_some, decide_eq_true_iff] at hkept
        exact ⟨old, rfl, le_of_not_gt hkept⟩
    have hid := Table.key_of_find hold
    have hmem := Table.mem_of_find hold
    refine ⟨fun r hr => List.mem_append_left _ (h.mem r hr), fun r hr r' hr' hid' => ?_,
      fun r hr => ?_⟩
    · rcases List.mem_append.1 hr' with hr' | hr'
      · exact h.latest r hr r' hr' hid'
      · obtain rfl := List.mem_singleton.1 hr'
        exact hrank.trans (h.latest r hr old (h.mem old hmem) (hid.trans hid'))
    · rcases List.mem_append.1 hr with hr | hr
      · exact h.covers r hr
      · rw [List.mem_singleton.1 hr]
        exact ⟨old, hmem, hid⟩

theorem keepsLatest_selectLatest (l : List (EdgeRevision F)) : KeepsLatest l (selectLatest l) := by
  have hfold : ∀ l seen selected : List (EdgeRevision F), KeepsLatest seen selected →
      KeepsLatest (seen ++ l) (l.foldl keepLatest selected) := by
    intro l
    induction l with
    | nil => intro seen selected h; rwa [List.append_nil]
    | cons x rest ih =>
      intro seen selected h
      have hrest := ih (seen ++ [x]) _ (h.step x)
      rwa [List.append_assoc, List.singleton_append] at hrest
  have hnil : ∀ P : EdgeRevision F → Prop, ∀ r ∈ ([] : List (EdgeRevision F)), P r :=
    fun _ _ h => absurd h List.not_mem_nil
  exact hfold l [] [] ⟨hnil _, hnil _, hnil _⟩

/-- **The selection** keeps, of revisions told apart by identity and rank, those that none of
their identity outranks. -/
theorem mem_selectLatest {l : List (EdgeRevision F)}
    (hinj : ∀ r ∈ l, ∀ r' ∈ l, r.identityId = r'.identityId → r.rank = r'.rank → r = r') :
    r ∈ selectLatest l ↔ r ∈ l ∧ ∀ r' ∈ l, r'.identityId = r.identityId → r'.rank ≤ r.rank := by
  have h := keepsLatest_selectLatest l
  constructor
  · exact fun hr => ⟨h.mem r hr, h.latest r hr⟩
  · rintro ⟨hr, hlatest⟩
    obtain ⟨r', hr', hid⟩ := h.covers r hr
    have hrank : r.rank = r'.rank :=
      le_antisymm (h.latest r' hr' r hr hid.symm) (hlatest r' (h.mem r' hr') hid)
    rw [hinj r hr r' (h.mem r' hr') hid.symm hrank]
    exact hr'

/-! ## The snapshot of the present -/

/-- The revisions on record, joined with their identities. -/
def GraphStore.history (g : GraphStore F) : List (EdgeRevision F) := g.revisions.filterMap g.joined

/-- Not superseded, and valid. -/
def EdgeRevision.InForce (r : EdgeRevision F) (now : ℤ) : Prop :=
  r.supersededAt = none ∧ r.validFrom ≤ now ∧ ∀ t ∈ r.validTo, now < t

instance (r : EdgeRevision F) (now : ℤ) : Decidable (r.InForce now) :=
  inferInstanceAs (Decidable (_ ∧ _ ∧ _))

/-- Nothing is recorded or superseded later than `now`. -/
def GraphStore.KnownBy (g : GraphStore F) (now : ℤ) : Prop :=
  ∀ row ∈ g.revisions, row.recordedAt ≤ now ∧ ∀ t ∈ row.supersededAt, t ≤ now

theorem mem_graph_history : r ∈ g.history ↔ ∃ row ∈ g.revisions, g.joined row = some r :=
  List.mem_filterMap

theorem exists_identity (h : r ∈ g.history) : ∃ row ∈ g.revisions, ∃ identity,
    g.identityOf row.identityId = some identity ∧ r = identity.join row := by
  obtain ⟨row, hrow, hjoin⟩ := mem_graph_history.1 h
  obtain ⟨identity, hid, rfl⟩ := Option.map_eq_some_iff.1 hjoin
  exact ⟨row, hrow, identity, hid, rfl⟩

theorem mem_loadAsOfRevisions (hknown : g.KnownBy now) :
    r ∈ g.loadAsOfRevisions now now ↔ r ∈ g.history ∧ r.InForce now := by
  unfold GraphStore.loadAsOfRevisions
  rw [List.mem_insertionSort, List.mem_filterMap]
  constructor
  · rintro ⟨row, hrow, hjoin⟩
    obtain ⟨hmem, hrec, hsup, hvalid⟩ := mem_asOf.1 hrow
    refine ⟨mem_graph_history.2 ⟨row, hmem, hjoin⟩, ?_⟩
    obtain ⟨identity, -, rfl⟩ := Option.map_eq_some_iff.1 hjoin
    refine ⟨?_, hvalid⟩
    -- what is superseded was so by now
    cases hnone : row.supersededAt with
    | none => exact hnone
    | some t =>
      have hle := (hknown row hmem).2 t hnone
      have hlt := hsup t hnone
      omega
  · rintro ⟨hmem, hsup, hvalid⟩
    obtain ⟨row, hrow, hjoin⟩ := mem_graph_history.1 hmem
    refine ⟨row, mem_asOf.2 ⟨hrow, ?_⟩, hjoin⟩
    obtain ⟨identity, -, rfl⟩ := Option.map_eq_some_iff.1 hjoin
    refine ⟨(hknown row hrow).1, fun t ht => ?_, hvalid⟩
    have hsup : row.supersededAt = none := hsup
    rw [show row.stamp.supersededAt = row.supersededAt from rfl, hsup] at ht
    exact absurd ht (by simp)

/-- A relation that is shown now: the latest revision in force of its identity is of a status
that the active graph shows. -/
structure Shows (g : GraphStore F) (now : ℤ) (r : EdgeRevision F) : Prop where
  mem : r ∈ g.history
  inForce : r.InForce now
  visible : r.status.visibleInActiveGraph
  latest : ∀ r' ∈ g.history, r'.InForce now → r'.identityId = r.identityId → r'.rank ≤ r.rank

/-- Revisions are told apart by identity and rank. -/
theorem history_inj (hg : g.WF digest) {r r' : EdgeRevision F} (hr : r ∈ g.history)
    (hr' : r' ∈ g.history) (hid : r.identityId = r'.identityId) (hrank : r.rank = r'.rank) :
    r = r' := by
  obtain ⟨row, hrow, hjoin⟩ := mem_graph_history.1 hr
  obtain ⟨row', hrow', hjoin'⟩ := mem_graph_history.1 hr'
  have hno : r.revisionNo = r'.revisionNo := by
    have h := congrArg ofLex hrank
    simp only [EdgeRevision.rank, ofLex_toLex, Prod.mk.injEq] at h
    have h := congrArg ofLex h.2
    simp only [ofLex_toLex, Prod.mk.injEq] at h
    have h := congrArg ofLex h.2
    simp only [ofLex_toLex, Prod.mk.injEq] at h
    exact h.2
  have hrows : row = row' := by
    refine List.inj_on_of_nodup_map hg.numbers hrow hrow' (Prod.ext ?_ ?_)
    · obtain ⟨i, -, rfl⟩ := Option.map_eq_some_iff.1 hjoin
      obtain ⟨i', -, rfl⟩ := Option.map_eq_some_iff.1 hjoin'
      exact hid
    · obtain ⟨i, -, rfl⟩ := Option.map_eq_some_iff.1 hjoin
      obtain ⟨i', -, rfl⟩ := Option.map_eq_some_iff.1 hjoin'
      exact hno
  rw [hrows, hjoin'] at hjoin
  exact (Option.some.inj hjoin).symm

/-- Evidence that needs a recheck is shown like other evidence. -/
theorem visible_statusAt (r : EdgeRevision F) (k : ℤ) :
    (r.statusAt k).visibleInActiveGraph = r.status.visibleInActiveGraph := by
  unfold EdgeRevision.statusAt
  split
  · rename_i h
    rcases h.1 with h | h <;> rw [h] <;> rfl
  · rfl

theorem mem_selectLatest_load (hg : g.WF digest) (hknown : g.KnownBy now) :
    r ∈ selectLatest (g.loadAsOfRevisions now now) ∧ r.status.visibleInActiveGraph ↔
      Shows g now r := by
  have hload := fun r : EdgeRevision F => mem_loadAsOfRevisions (r := r) hknown
  rw [mem_selectLatest fun r hr r' hr' => history_inj hg ((hload r).1 hr).1 ((hload r').1 hr').1,
    hload]
  constructor
  · rintro ⟨⟨⟨hmem, hforce⟩, hlatest⟩, hvisible⟩
    exact ⟨hmem, hforce, hvisible, fun r' hr' hf => hlatest r' ((hload r').2 ⟨hr', hf⟩)⟩
  · rintro ⟨hmem, hforce, hvisible, hlatest⟩
    exact ⟨⟨⟨hmem, hforce⟩, fun r' hr' => hlatest r' ((hload r').1 hr').1 ((hload r').1 hr').2⟩,
      hvisible⟩

theorem resolveMerge_none (id : String) : resolveMerge id (mergeMap []) = id := by
  simp [resolveMerge, resolveLoop, mergeMap, Table.find]

/-! ## What a call records -/

/-- The ends, the relation and the scopes. -/
def EdgeRevision.unique (r : EdgeRevision F) : String × String × Relation × String × String :=
  (r.src, r.dst, r.relation, r.productScope.getD "", r.regionScope.getD "")

def EdgeRevisionInput.unique (input : EdgeRevisionInput F) :
    String × String × Relation × String × String :=
  (input.edge.src, input.edge.dst, input.edge.relation, input.productScope.getD "",
    input.regionScope.getD "")

/-- The key of the current projection. -/
def Edge.ends (e : Edge F) : String × String × Relation := (e.src, e.dst, e.relation)

def EdgeRevision.ends (r : EdgeRevision F) : String × String × Relation := (r.src, r.dst, r.relation)

/-- The identity that the input is recorded under. -/
def GraphStore.identityFor (digest : ℕ → String → String) (g : GraphStore F)
    (input : EdgeRevisionInput F) : String :=
  ((Table.find IdentityRow.unique (input.identity digest).unique g.identities).map
    (·.identityId)).getD (input.identity digest).identityId

theorem unique_join (identity : IdentityRow) (row : RevisionRow F) :
    (identity.join row).unique = identity.unique := by
  have hscope : ∀ s : String, (if s = "" then none else some s).getD "" = s := by
    intro s
    split
    · rename_i h
      exact h.symm
    · rfl
  unfold EdgeRevision.unique IdentityRow.unique IdentityRow.join
  dsimp only
  rw [hscope, hscope]

theorem join_eq_of_unique {i i' : IdentityRow} (h : i.unique = i'.unique) (row : RevisionRow F) :
    i.join row = i'.join row := by
  unfold IdentityRow.unique at h
  simp only [Prod.mk.injEq] at h
  obtain ⟨hsrc, hdst, hrel, hproduct, hregion⟩ := h
  unfold IdentityRow.join
  rw [hsrc, hdst, hrel, hproduct, hregion]

theorem ends_eq_of_unique (h : r.unique = input.unique) : r.ends = input.edge.ends := by
  unfold EdgeRevision.unique EdgeRevisionInput.unique at h
  simp only [Prod.mk.injEq] at h
  unfold EdgeRevision.ends Edge.ends
  rw [h.1, h.2.1, h.2.2.1]

/-- Revisions have one identity exactly when they have the same ends, relation and scopes. -/
theorem identityId_eq_iff (hg : g.WF digest) {r r' : EdgeRevision F} (hr : r ∈ g.history)
    (hr' : r' ∈ g.history) : r.identityId = r'.identityId ↔ r.unique = r'.unique := by
  obtain ⟨row, -, i, hi, rfl⟩ := exists_identity hr
  obtain ⟨row', -, i', hi', rfl⟩ := exists_identity hr'
  rw [unique_join, unique_join]
  have hkey : i.identityId = row.identityId := Table.key_of_find hi
  have hkey' : i'.identityId = row'.identityId := Table.key_of_find hi'
  constructor
  · intro hid
    have hid : row.identityId = row'.identityId := hid
    rw [hid, hi'] at hi
    rw [Option.some.inj hi]
  · intro hunique
    have hsame : i = i' := List.inj_on_of_nodup_map hg.unique (Table.mem_of_find hi)
      (Table.mem_of_find hi') hunique
    show row.identityId = row'.identityId
    rw [← hkey, ← hkey', hsame]

theorem ends_of_unique {r r' : EdgeRevision F} (h : r.unique = r'.unique) : r.ends = r'.ends := by
  unfold EdgeRevision.unique at h
  simp only [Prod.mk.injEq] at h
  unfold EdgeRevision.ends
  rw [h.1, h.2.1, h.2.2.1]

theorem Ensured.same {identityId : String} (hg : g.WF digest)
    (h : Ensured digest input g identityId g₁) :
    identityId = g.identityFor digest input ∧ g₁.revisions = g.revisions ∧
      (∀ row ∈ g.revisions, g₁.joined row = g.joined row) ∧
      ∃ i, g₁.identityOf identityId = some i ∧ i.unique = (input.identity digest).unique := by
  unfold GraphStore.identityFor
  cases h with
  | found row hrow =>
    rw [hrow]
    refine ⟨rfl, rfl, fun _ _ => rfl, row, ?_, Table.key_of_find hrow⟩
    exact Table.find_of_mem hg.ids (Table.mem_of_find hrow)
  | added hscope hfree =>
    rw [hscope]
    refine ⟨rfl, rfl, fun row hrow => ?_, input.identity digest, ?_, rfl⟩
    · unfold GraphStore.joined
      rw [identityOf_addIdentity _ (hg.known row hrow)]
    · unfold GraphStore.identityOf GraphStore.addIdentity at *
      rw [Table.find_append, hfree]
      simp [Table.find]

theorem Ensured.frame {identityId : String} (h : Ensured digest input g identityId g₁) :
    g₁.edges = g.edges ∧ g₁.merges = g.merges := by
  cases h <;> exact ⟨rfl, rfl⟩

theorem Ensured.selectRevision {identityId : String} (hg : g.WF digest)
    (h : Ensured digest input g identityId g₁) (revisionId : String) :
    g₁.selectRevision revisionId = g.selectRevision revisionId := by
  obtain ⟨-, hrows, hjoined, -⟩ := h.same hg
  unfold GraphStore.selectRevision
  rw [hrows]
  cases hfind : Table.find RevisionRow.revisionId revisionId g.revisions with
  | none => rfl
  | some row => exact hjoined row (Table.mem_of_find hfind)

theorem Ensured.history {identityId : String} (hg : g.WF digest)
    (h : Ensured digest input g identityId g₁) : g₁.history = g.history := by
  obtain ⟨-, hrows, hjoined, -⟩ := h.same hg
  unfold GraphStore.history
  rw [hrows]
  exact List.filterMap_congr hjoined

theorem joined_supersede (g : GraphStore F) (revisionId : String) (t : ℤ) (row : RevisionRow F) :
    (g.supersede revisionId t).joined row = g.joined row := rfl

/-- A revision that is not superseded is on record after superseding another. -/
theorem mem_history_supersede (g : GraphStore F) (revisionId : String) (t : ℤ)
    (r : EdgeRevision F) :
    r ∈ (g.supersede revisionId t).history ∧ r.supersededAt = none ↔
      r ∈ g.history ∧ r.supersededAt = none ∧ r.revisionId ≠ revisionId := by
  rw [mem_graph_history, mem_graph_history]
  constructor
  · rintro ⟨⟨row', hrow', hjoin⟩, hlive⟩
    rw [joined_supersede] at hjoin
    obtain ⟨row₀, hrow₀, ⟨-, rfl⟩ | ⟨hne, rfl⟩⟩ := Table.mem_update hrow'
    · obtain ⟨i, -, rfl⟩ := Option.map_eq_some_iff.1 hjoin
      exact absurd hlive (by simp [IdentityRow.join, RevisionRow.supersede, Stamp.supersede])
    · refine ⟨⟨row', hrow₀, hjoin⟩, hlive, ?_⟩
      obtain ⟨i, -, rfl⟩ := Option.map_eq_some_iff.1 hjoin
      exact hne
  · rintro ⟨⟨row', hrow', hjoin⟩, hlive, hne⟩
    have hne' : row'.revisionId ≠ revisionId := by
      obtain ⟨i, -, rfl⟩ := Option.map_eq_some_iff.1 hjoin
      exact hne
    exact ⟨⟨row', List.mem_map.2 ⟨row', hrow', if_neg hne'⟩, hjoin⟩, hlive⟩

theorem history_addRevision {row : RevisionRow F} (h : g.joined row = some r) :
    (g.addRevision row).history = g.history ++ [r] := by
  show (g.revisions ++ [row]).filterMap g.joined = _
  rw [List.filterMap_append, List.filterMap_cons_some h]
  rfl

variable [F64 F]

/-- **The edges of a snapshot of the present**, where no nodes were merged. -/
theorem mem_snapshotAt_edges (hg : g.WF digest) (hknown : g.KnownBy now) (hmerges : g.merges = [])
    {e : SnapshotEdge F} :
    e ∈ (g.snapshotAt digest now now).edges ↔
      ∃ r, Shows g now r ∧ e = r.snapshotEdge now (mergeMap []) := by
  have hnone : g.loadAsOfMerges now now = [] := by
    unfold GraphStore.loadAsOfMerges asOf
    rw [hmerges]
    rfl
  unfold GraphStore.snapshotAt buildSnapshot
  dsimp only
  rw [hnone, List.mem_insertionSort, List.mem_map]
  constructor
  · rintro ⟨r, hr, rfl⟩
    obtain ⟨hmem, hvisible⟩ := List.mem_filter.1 hr
    rw [visible_statusAt] at hvisible
    exact ⟨r, (mem_selectLatest_load hg hknown).1 ⟨hmem, hvisible⟩, rfl⟩
  · rintro ⟨r, hr, rfl⟩
    obtain ⟨hmem, hvisible⟩ := (mem_selectLatest_load hg hknown).2 hr
    rw [← visible_statusAt r now] at hvisible
    exact ⟨r, List.mem_filter.2 ⟨hmem, hvisible⟩, rfl⟩

section Call

variable (digest : ℕ → String → String) (g : GraphStore F) (input : EdgeRevisionInput F)

def GraphStore.revisionIdFor : String := revisionHash digest (g.identityFor digest input) input

/-- The revision that the input repeats, if it was recorded before. -/
def GraphStore.repeated : Option (EdgeRevision F) :=
  g.selectRevision (g.revisionIdFor digest input)

/-- The revision that the input is recorded as. -/
def GraphStore.revisionFor : EdgeRevision F :=
  (g.repeated digest input).getD ((input.identity digest).join
    (input.row (g.revisionIdFor digest input) (g.identityFor digest input)
      (g.nextRevisionNo (g.identityFor digest input))))

/-- The other revisions of the relation, in any scope, that are not superseded after the call. -/
def GraphStore.others : List (EdgeRevision F) :=
  g.history.filter fun r => r.ends = input.edge.ends ∧ r.supersededAt = none ∧
    r.revisionId ≠ g.revisionIdFor digest input ∧
    ((g.repeated digest input).isSome ∨ input.supersedesRevisionId ≠ some r.revisionId)

end Call

/-- The call supersedes the revision. -/
def GraphStore.Replaces (digest : ℕ → String → String) (g : GraphStore F)
    (input : EdgeRevisionInput F) (r : EdgeRevision F) : Prop :=
  g.repeated digest input = none ∧ input.supersedesRevisionId = some r.revisionId

/-- What is on record after a call, and not superseded. -/
structure RecordStep (digest : ℕ → String → String) (g : GraphStore F)
    (input : EdgeRevisionInput F) (g₁ : GraphStore F) : Prop where
  live : ∀ r : EdgeRevision F, r ∈ g₁.history ∧ r.supersededAt = none ↔
    (r ∈ g.history ∧ r.supersededAt = none ∧ ¬ g.Replaces digest input r) ∨
      r = g.revisionFor digest input ∧ r.supersededAt = none
  replaced : ∀ r ∈ g.history, g.Replaces digest input r → r.unique = input.unique
  mem : ∀ r, g.repeated digest input = some r → r ∈ g.history
  edges : g₁.edges = g.edges
  merges : g₁.merges = g.merges
  known : ∀ row ∈ g₁.revisions, (∃ row₀ ∈ g.revisions, row₀.recordedAt = row.recordedAt ∧
      (row.supersededAt = row₀.supersededAt ∨
        ∀ t ∈ row.supersededAt, t ≤ input.recordedAt)) ∨
    row.recordedAt = input.recordedAt ∧ row.supersededAt = none

/-- **What a recorded input changes** in the history. -/
theorem RevisionRecorded.step (hg : g.WF digest) (haccepted : RevisionAccepted input g)
    (h : RevisionRecorded digest input g saved g₁) : RecordStep digest g input g₁ := by
  have hmem : ∀ r, g.repeated digest input = some r → r ∈ g.history := by
    intro r hr
    obtain ⟨row, hrow, hjoin⟩ := Option.bind_eq_some_iff.1 hr
    exact mem_graph_history.2 ⟨row, Table.mem_of_find hrow, hjoin⟩
  cases h with
  | again identityId g₁ saved hensured hsaved =>
    obtain ⟨hid, hrows, -, -⟩ := hensured.same hg
    rw [hensured.selectRevision hg, hid] at hsaved
    have hrepeated : g.repeated digest input = some saved := hsaved
    have hnot : ∀ r, ¬ g.Replaces digest input r := by
      intro r hr
      rw [hr.1] at hrepeated
      exact absurd hrepeated (by simp)
    refine ⟨fun r => ?_, fun r _ hr => absurd hr (hnot r), hmem, ?_, ?_, fun row hrow => ?_⟩
    · rw [hensured.history hg]
      unfold GraphStore.revisionFor
      rw [hrepeated]
      constructor
      · exact fun hr => .inl ⟨hr.1, hr.2, hnot r⟩
      · rintro (⟨hr, hlive, -⟩ | ⟨rfl, hlive⟩)
        · exact ⟨hr, hlive⟩
        · exact ⟨hmem _ hrepeated, hlive⟩
    · exact hensured.frame.1
    · exact hensured.frame.2
    · rw [hrows] at hrow
      exact .inl ⟨row, hrow, rfl, .inl rfl⟩
  | anew identityId g₁ g₂ saved hensured hnew hsup hsaved =>
    obtain ⟨hid, hrows, -, i, hi, hunique⟩ := hensured.same hg
    have hhistory := hensured.history hg
    have hchanges : GraphChanges digest (fun _ => True) g g₁ :=
      (hensured.changes haccepted.src haccepted.dst).1
    have hwf₁ := hchanges.wf hg
    rw [hensured.selectRevision hg, hid] at hnew
    have hrepeated : g.repeated digest input = none := hnew
    subst hid
    -- the row that is added is joined with the identity of the input
    have hjoin : ∀ row : RevisionRow F, row.identityId = g.identityFor digest input →
        g₂.joined row = some ((input.identity digest).join row) := by
      intro row hrow
      have hids : g₂.identities = g₁.identities := by cases hsup <;> rfl
      unfold GraphStore.joined GraphStore.identityOf at *
      rw [hids, hrow, hi, Option.map_some, join_eq_of_unique hunique]
    have hno : g₁.nextRevisionNo (g.identityFor digest input) =
        g.nextRevisionNo (g.identityFor digest input) := by
      unfold GraphStore.nextRevisionNo
      rw [hrows]
    have hfor : g₂.joined (input.row (revisionHash digest (g.identityFor digest input) input)
        (g.identityFor digest input) (g₁.nextRevisionNo (g.identityFor digest input))) =
        some (g.revisionFor digest input) := by
      rw [hjoin _ rfl, hno]
      unfold GraphStore.revisionFor
      rw [hrepeated]
      rfl
    have hlive : ∀ r : EdgeRevision F, r ∈ g₂.history ∧ r.supersededAt = none ↔
        r ∈ g.history ∧ r.supersededAt = none ∧ ¬ g.Replaces digest input r := by
      intro r
      rw [← hhistory]
      cases hsup with
      | no hnone =>
        have hnot : ¬ g.Replaces digest input r := by
          rintro ⟨-, hr⟩
          rw [hnone] at hr
          exact absurd hr (by simp)
        exact ⟨fun h => ⟨h.1, h.2, hnot⟩, fun h => ⟨h.1, h.2.1⟩⟩
      | previous row hprevious hfind hrow hcheck =>
        rw [mem_history_supersede]
        refine and_congr_right fun _ => and_congr_right fun _ => ?_
        unfold GraphStore.Replaces
        rw [hprevious]
        constructor
        · rintro hne ⟨-, heq⟩
          exact hne (Option.some.inj heq).symm
        · exact fun hnot heq => hnot ⟨hrepeated, by rw [heq]⟩
    refine ⟨fun r => ?_, fun r hr hreplaces => ?_, hmem, ?_, ?_, fun row hrow => ?_⟩
    · rw [history_addRevision hfor, List.mem_append, List.mem_singleton, or_and_right, hlive]
    · obtain ⟨-, hreplaces⟩ := hreplaces
      cases hsup with
      | no hnone =>
        rw [hnone] at hreplaces
        exact absurd hreplaces (by simp)
      | previous row hprevious hfind hrow hcheck =>
        rw [hprevious] at hreplaces
        have hsame := Option.some.inj hreplaces
        rw [← hhistory] at hr
        obtain ⟨row', hrow', hjoin'⟩ := mem_graph_history.1 hr
        obtain ⟨i', hi', rfl⟩ := Option.map_eq_some_iff.1 hjoin'
        have heq : row = row' := List.inj_on_of_nodup_map hwf₁.revisions (Table.mem_of_find hfind)
          hrow' hsame
        rw [← heq, hrow, hi] at hi'
        rw [unique_join, ← Option.some.inj hi', hunique]
        rfl
    · have hedges : g₂.edges = g₁.edges := by cases hsup <;> rfl
      exact hedges.trans hensured.frame.1
    · have hmerges : g₂.merges = g₁.merges := by cases hsup <;> rfl
      exact hmerges.trans hensured.frame.2
    · rcases List.mem_append.1 hrow with hrow | hrow
      · left
        cases hsup with
        | no _ =>
          rw [hrows] at hrow
          exact ⟨row, hrow, rfl, .inl rfl⟩
        | previous prev _ _ _ hcheck =>
          obtain ⟨row₀, hrow₀, ⟨-, rfl⟩ | ⟨-, rfl⟩⟩ := Table.mem_update hrow
          · rw [hrows] at hrow₀
            refine ⟨row₀, hrow₀, rfl, .inr fun t ht => ?_⟩
            obtain rfl := Option.some.inj ht
            cases h₀ : row₀.stamp.supersededAt with
            | none => exact le_refl _
            | some u => exact min_le_left _ _
          · rw [hrows] at hrow₀
            exact ⟨row, hrow₀, rfl, .inl rfl⟩
      · rw [List.mem_singleton.1 hrow]
        exact .inr ⟨rfl, rfl⟩

/-! ## The last word -/

def Edge.Holds (e : Edge F) (now : ℤ) : Prop := e.validFrom ≤ now ∧ ∀ t ∈ e.validTo, now < t

instance (e : Edge F) (now : ℤ) : Decidable (e.Holds now) := inferInstanceAs (Decidable (_ ∧ _))

/-- The revision states what the input states. It does, unless digests collide. -/
structure EdgeRevision.States (r : EdgeRevision F) (input : EdgeRevisionInput F) : Prop where
  unique : r.unique = input.unique
  status : r.status = input.status
  weight : r.weight = input.edge.weight
  confidence : r.confidence = input.edge.confidence
  validFrom : r.validFrom = input.edge.validFrom
  validTo : r.validTo = input.edge.validTo

/-- The revision is outranked in its scope, by one in force that is not shown. -/
def EdgeRevision.Masked (r : EdgeRevision F) (now : ℤ) (l : List (EdgeRevision F)) : Prop :=
  ∃ r' ∈ l, r'.InForce now ∧ r'.unique = r.unique ∧ r.rank < r'.rank ∧
    ¬ r'.status.visibleInActiveGraph

instance (r : EdgeRevision F) (now : ℤ) (l : List (EdgeRevision F)) : Decidable (r.Masked now l) :=
  inferInstanceAs (Decidable (∃ r' ∈ l, _ ∧ _ ∧ _ ∧ _))

/-- **The last word**: the input decides what is known of its relation at the time `now`. -/
structure Decides (digest : ℕ → String → String) (now : ℤ) (g : GraphStore F)
    (input : EdgeRevisionInput F) : Prop where
  states : (g.revisionFor digest input).States input
  /-- While the relation holds by the input, its revision is not superseded, nor a candidate, and
  outranks the others of its scope. -/
  holds : input.projection.Holds now →
    (g.revisionFor digest input).supersededAt = none ∧ input.status ≠ .candidate ∧
      ∀ r ∈ g.others digest input, r.InForce now → r.unique = input.unique →
        r.rank < (g.revisionFor digest input).rank
  /-- While it does not, no other revision of the relation is shown. -/
  ended : ¬ input.projection.Holds now →
    ∀ r ∈ g.others digest input, r.InForce now → r.status.visibleInActiveGraph →
      r.Masked now (g.revisionFor digest input :: g.others digest input)

instance [DecidableEq F] (r : EdgeRevision F) (input : EdgeRevisionInput F) :
    Decidable (r.States input) :=
  decidable_of_iff (r.unique = input.unique ∧ r.status = input.status ∧
      r.weight = input.edge.weight ∧ r.confidence = input.edge.confidence ∧
      r.validFrom = input.edge.validFrom ∧ r.validTo = input.edge.validTo)
    ⟨fun ⟨h₁, h₂, h₃, h₄, h₅, h₆⟩ => ⟨h₁, h₂, h₃, h₄, h₅, h₆⟩,
      fun ⟨h₁, h₂, h₃, h₄, h₅, h₆⟩ => ⟨h₁, h₂, h₃, h₄, h₅, h₆⟩⟩

instance [DecidableEq F] (digest : ℕ → String → String) (now : ℤ) (g : GraphStore F)
    (input : EdgeRevisionInput F) : Decidable (Decides digest now g input) :=
  have : Decidable (input.projection.Holds now →
      (g.revisionFor digest input).supersededAt = none ∧ input.status ≠ .candidate ∧
        ∀ r ∈ g.others digest input, r.InForce now → r.unique = input.unique →
          r.rank < (g.revisionFor digest input).rank) := inferInstance
  decidable_of_iff (_ ∧ _ ∧ _) ⟨fun ⟨h₁, h₂, h₃⟩ => ⟨h₁, h₂, h₃⟩, fun ⟨h₁, h₂, h₃⟩ => ⟨h₁, h₂, h₃⟩⟩

/-- The current projection and the history hold the same relations at the time `now`. -/
structure InStep (g : GraphStore F) (now : ℤ) : Prop where
  sound : ∀ e ∈ g.allEdges now, ∃ r, Shows g now r ∧ r.ends = e.ends ∧ r.weight = e.weight ∧
    r.confidence = e.confidence
  complete : ∀ r, Shows g now r → ∃ e ∈ g.allEdges now, e.ends = r.ends

omit [F64 F] in
/-- What is shown does not depend on the projection. -/
theorem shows_putEdge {p : Edge F} : Shows (g.putEdge p) now r ↔ Shows g now r :=
  ⟨fun h => ⟨h.mem, h.inForce, h.visible, h.latest⟩, fun h => ⟨h.mem, h.inForce, h.visible, h.latest⟩⟩

omit [F64 F] in
theorem mem_allEdges {e : Edge F} : e ∈ g.allEdges now ↔ e ∈ g.edges ∧ e.Holds now := by
  unfold GraphStore.allEdges
  rw [List.mem_filter, decide_eq_true_iff]
  rfl

omit [F64 F] in
theorem mem_allEdges_putEdge {p e : Edge F} :
    e ∈ (g.putEdge p).allEdges now ↔
      e = p ∧ p.Holds now ∨ e ∈ g.allEdges now ∧ e.ends ≠ p.ends := by
  rw [mem_allEdges, mem_allEdges]
  unfold GraphStore.putEdge
  dsimp only
  rw [Table.mem_upsert]
  constructor
  · rintro ⟨rfl | ⟨he, hne⟩, hholds⟩
    · exact .inl ⟨rfl, hholds⟩
    · exact .inr ⟨⟨he, hholds⟩, hne⟩
  · rintro (⟨rfl, hholds⟩ | ⟨⟨he, hholds⟩, hne⟩)
    · exact ⟨.inl rfl, hholds⟩
    · exact ⟨.inr ⟨he, hne⟩, hholds⟩

omit [F64 F] in
/-- A relation that does not hold any more is not projected from the time that was recorded. -/
theorem holds_projection (hrec : input.recordedAt ≤ now) : input.projection.Holds now ↔
    (input.status.visibleInActiveGraph ∨ input.status = .candidate) ∧ input.edge.Holds now := by
  have hnever : ∀ b, ¬ Edge.Holds ({ input.edge with validTo := some b } : Edge F) now ∨ now < b := by
    intro b
    by_cases hb : now < b
    · exact .inr hb
    · exact .inl fun h => hb (h.2 b rfl)
  unfold EdgeRevisionInput.projection
  cases hstatus : input.status <;> simp [RelationStatus.visibleInActiveGraph]
  case contradicted | expired | revoked =>
    rcases hnever input.recordedAt with h | h
    · exact h
    · omega

/-! ## Steps -/

theorem repeated_of_revisionId (hg : g.WF digest) (hr : r ∈ g.history)
    (hid : r.revisionId = g.revisionIdFor digest input) : g.repeated digest input = some r := by
  obtain ⟨row, hrow, hjoin⟩ := mem_graph_history.1 hr
  have hrowId : row.revisionId = g.revisionIdFor digest input := by
    obtain ⟨i, -, rfl⟩ := Option.map_eq_some_iff.1 hjoin
    exact hid
  unfold GraphStore.repeated GraphStore.selectRevision
  rw [← hrowId, Table.find_of_mem hg.revisions hrow]
  exact hjoin

theorem mem_others : r ∈ g.others digest input ↔ r ∈ g.history ∧ r.ends = input.edge.ends ∧
    r.supersededAt = none ∧ r.revisionId ≠ g.revisionIdFor digest input ∧
    ((g.repeated digest input).isSome ∨ input.supersedesRevisionId ≠ some r.revisionId) := by
  unfold GraphStore.others
  rw [List.mem_filter, decide_eq_true_iff]

section Step

variable (hg : g.WF digest) (hstep : RecordStep digest g input g₁)

include hg hstep

/-- After the call, a revision of the relation that is not superseded is that of the input or one
of the others. -/
theorem RecordStep.cases (hends : r.ends = input.edge.ends) (hr : r ∈ g₁.history)
    (hlive : r.supersededAt = none) : r = g.revisionFor digest input ∨ r ∈ g.others digest input := by
  rcases (hstep.live r).1 ⟨hr, hlive⟩ with ⟨hmem, -, hnot⟩ | ⟨hfor, -⟩
  · by_cases hid : r.revisionId = g.revisionIdFor digest input
    · left
      unfold GraphStore.revisionFor
      rw [repeated_of_revisionId hg hmem hid]
      rfl
    · right
      refine mem_others.2 ⟨hmem, hends, hlive, hid, ?_⟩
      by_cases hsome : (g.repeated digest input).isSome
      · exact .inl hsome
      · exact .inr fun hsup => hnot ⟨Option.not_isSome_iff_eq_none.1 hsome, hsup⟩
  · exact .inl hfor

omit hg in
theorem RecordStep.mem_of_others (hr : r ∈ g.others digest input) : r ∈ g₁.history := by
  obtain ⟨hmem, -, hlive, -, hkept⟩ := mem_others.1 hr
  refine ((hstep.live r).2 (.inl ⟨hmem, hlive, ?_⟩)).1
  rintro ⟨hnone, hsup⟩
  rcases hkept with hsome | hne
  · rw [hnone] at hsome
    exact absurd hsome (by simp)
  · exact hne hsup

omit hg in
/-- Other relations are as they were. -/
theorem RecordStep.mem_iff (hstates : (g.revisionFor digest input).States input)
    (hends : r.ends ≠ input.edge.ends) (hlive : r.supersededAt = none) :
    r ∈ g₁.history ↔ r ∈ g.history := by
  constructor
  · intro hr
    rcases (hstep.live r).1 ⟨hr, hlive⟩ with ⟨hmem, -, -⟩ | ⟨rfl, -⟩
    · exact hmem
    · exact absurd (ends_eq_of_unique hstates.unique) hends
  · intro hr
    refine ((hstep.live r).2 (.inl ⟨hr, hlive, fun hreplaces => ?_⟩)).1
    exact hends (ends_eq_of_unique (hstep.replaced r hr hreplaces))

theorem RecordStep.shows_iff (hg₁ : g₁.WF digest)
    (hstates : (g.revisionFor digest input).States input) (hends : r.ends ≠ input.edge.ends) :
    Shows g₁ now r ↔ Shows g now r := by
  have hother : ∀ {h : GraphStore F}, h.WF digest → r ∈ h.history → ∀ r' ∈ h.history,
      r'.identityId = r.identityId → r'.ends ≠ input.edge.ends := by
    intro h hh hr r' hr' hid
    rw [ends_of_unique ((identityId_eq_iff hh hr' hr).1 hid)]
    exact hends
  constructor
  · rintro ⟨hmem, hforce, hvisible, hlatest⟩
    have hmem' := (hstep.mem_iff hstates hends hforce.1).1 hmem
    refine ⟨hmem', hforce, hvisible, fun r' hr' hforce' hid => ?_⟩
    have hends' := hother hg hmem' r' hr' hid
    exact hlatest r' ((hstep.mem_iff hstates hends' hforce'.1).2 hr') hforce' hid
  · rintro ⟨hmem, hforce, hvisible, hlatest⟩
    have hmem' := (hstep.mem_iff hstates hends hforce.1).2 hmem
    refine ⟨hmem', hforce, hvisible, fun r' hr' hforce' hid => ?_⟩
    have hends' := hother hg₁ hmem' r' hr' hid
    exact hlatest r' ((hstep.mem_iff hstates hends' hforce'.1).1 hr') hforce' hid

/-- **The last word keeps the projection in step** with the history. -/
theorem RecordStep.inStep (hg₁ : g₁.WF digest) (hrec : input.recordedAt ≤ now)
    (hdecides : Decides digest now g input) (h : InStep g now) :
    InStep (g₁.putEdge input.projection) now := by
  obtain ⟨hstates, hholds, hended⟩ := hdecides
  have hproj : input.projection.Holds now ↔ (input.status.visibleInActiveGraph ∨
    input.status = .candidate) ∧ input.edge.Holds now := holds_projection hrec
  have hends : input.projection.ends = input.edge.ends := rfl
  have hforEnds := ends_eq_of_unique hstates.unique
  -- the revision of the input is valid when the input is
  have hvalid : ∀ (hlive : (g.revisionFor digest input).supersededAt = none),
      (g.revisionFor digest input).InForce now ↔ input.edge.Holds now := by
    intro hlive
    unfold EdgeRevision.InForce Edge.Holds
    rw [hstates.validFrom, hstates.validTo]
    exact and_iff_right hlive
  refine ⟨fun e he => ?_, fun r hr => ?_⟩
  · rcases mem_allEdges_putEdge.1 he with ⟨rfl, hnow⟩ | ⟨he, hne⟩
    · -- the relation of the input is shown by its revision
      obtain ⟨hlive, hcandidate, hnewest⟩ := hholds hnow
      obtain ⟨hvisible, hedge⟩ := hproj.1 hnow
      have hforce := (hvalid hlive).2 hedge
      have hmem : g.revisionFor digest input ∈ g₁.history :=
        ((hstep.live _).2 (.inr ⟨rfl, hlive⟩)).1
      refine ⟨g.revisionFor digest input, ⟨hmem, hforce, ?_, fun r' hr' hforce' hid => ?_⟩,
        hforEnds, hstates.weight, hstates.confidence⟩
      · rw [hstates.status]
        exact hvisible.resolve_right hcandidate
      · have hunique := (identityId_eq_iff hg₁ hr' hmem).1 hid
        have hends' : r'.ends = input.edge.ends := (ends_of_unique hunique).trans hforEnds
        rcases hstep.cases hg hends' hr' hforce'.1 with rfl | hother
        · exact le_refl _
        · exact le_of_lt (hnewest r' hother hforce' (hunique.trans hstates.unique))
    · have hedges : (g₁.allEdges now) = g.allEdges now := by
        unfold GraphStore.allEdges
        rw [hstep.edges]
      rw [hedges] at he
      obtain ⟨r, hr, hrends, hweight, hconfidence⟩ := h.sound e he
      refine ⟨r, shows_putEdge.2 ((hstep.shows_iff hg hg₁ hstates ?_).2 hr), hrends, hweight,
        hconfidence⟩
      rw [hrends]
      exact hne
  · rw [shows_putEdge] at hr
    by_cases hrends : r.ends = input.edge.ends
    · -- what is shown of the relation of the input, is shown by the projection too
      refine ⟨input.projection, mem_allEdges_putEdge.2 (.inl ⟨rfl, ?_⟩), hrends.symm⟩
      by_contra hnow
      rcases hstep.cases hg hrends hr.mem hr.inForce.1 with rfl | hother
      · refine hnow (hproj.2 ⟨.inl ?_, (hvalid hr.inForce.1).1 hr.inForce⟩)
        rw [← hstates.status]
        exact hr.visible
      · obtain ⟨r', hr', hforce', hunique, hlt, hhidden⟩ := hended hnow r hother hr.inForce hr.visible
        have hmem' : r' ∈ g₁.history := by
          rcases List.mem_cons.1 hr' with rfl | hr'
          · exact ((hstep.live _).2 (.inr ⟨rfl, hforce'.1⟩)).1
          · exact hstep.mem_of_others hr'
        have hid := (identityId_eq_iff hg₁ hmem' hr.mem).2 hunique
        exact absurd (hr.latest r' hmem' hforce' hid) (not_le_of_gt hlt)
    · obtain ⟨e, he, heends⟩ := h.complete r ((hstep.shows_iff hg hg₁ hstates hrends).1 hr)
      refine ⟨e, mem_allEdges_putEdge.2 (.inr ⟨?_, ?_⟩), heends⟩
      · unfold GraphStore.allEdges at he ⊢
        rw [hstep.edges]
        exact he
      · rw [heends]
        exact hrends

end Step

/-! ## Runs -/

/-- The graph after a call of `upsert_revision_at`. -/
def GraphStore.upserted (digest : ℕ → String → String) (g : GraphStore F)
    (input : EdgeRevisionInput F) : GraphStore F :=
  (exec (upsertRevisionAt digest input) g).2

/-- A call that is answered with `Ok` has the last word. -/
def DecidesIfRecorded (digest : ℕ → String → String) (now : ℤ) (g : GraphStore F)
    (input : EdgeRevisionInput F) : Prop :=
  (exec (upsertRevisionAt digest input) g).1.isOk → Decides digest now g input

instance [DecidableEq F] (digest : ℕ → String → String) (now : ℤ) (g : GraphStore F)
    (input : EdgeRevisionInput F) : Decidable (DecidesIfRecorded digest now g input) :=
  inferInstanceAs (Decidable (_ → _))

/-- What holds of the graph while calls have the last word. -/
structure ProjectionOK (digest : ℕ → String → String) (now : ℤ) (g : GraphStore F) : Prop where
  wf : g.WF digest
  merges : g.merges = []
  known : g.KnownBy now
  inStep : InStep g now

theorem ProjectionOK.step (hg : ProjectionOK digest now g) (hrec : input.recordedAt ≤ now)
    (hdecides : DecidesIfRecorded digest now g input) :
    ProjectionOK digest now (g.upserted digest input) := by
  have hspec := upsertRevisionAt_spec digest input g
  unfold GraphStore.upserted
  unfold DecidesIfRecorded at hdecides
  rcases hexec : exec (upsertRevisionAt digest input) g with ⟨e | saved, g'⟩
  · rw [hspec.error rfl hexec]
    exact hg
  · obtain ⟨haccepted, g₁, hrecorded, rfl⟩ := hspec.ok rfl hexec
    rw [hexec] at hdecides
    have hstep := hrecorded.step hg.wf haccepted
    have hchanges : GraphChanges digest (fun _ => True) g g₁ :=
      hrecorded.changes haccepted trivial
    have hwf := hchanges.wf hg.wf
    refine ⟨{ hwf with }, hstep.merges.trans hg.merges, fun row hrow => ?_,
      hstep.inStep hg.wf hwf hrec (hdecides rfl) hg.inStep⟩
    rcases hstep.known row hrow with ⟨row₀, hrow₀, hat, hsup⟩ | ⟨hat, hsup⟩
    · obtain ⟨hrecorded₀, hsuperseded₀⟩ := hg.known row₀ hrow₀
      rw [← hat]
      refine ⟨hrecorded₀, fun t ht => ?_⟩
      rcases hsup with hsame | hle
      · rw [hsame] at ht
        exact hsuperseded₀ t ht
      · exact (hle t ht).trans hrec
    · rw [hat, hsup]
      exact ⟨hrec, fun t ht => absurd ht (by simp)⟩

/-- The current projection agrees with a snapshot: each relation is in both or in neither, and
the weight and the confidence of an edge are those of one of the snapshot. -/
structure AgreesWith (g : GraphStore F) (now : ℤ) (snapshot : GraphSnapshot F) : Prop where
  relations : ∀ src dst relation,
    (∃ e ∈ g.allEdges now, e.src = src ∧ e.dst = dst ∧ e.relation = relation) ↔
      ∃ e ∈ snapshot.edges, e.src = src ∧ e.dst = dst ∧ e.relation = relation
  values : ∀ e ∈ g.allEdges now, ∃ e' ∈ snapshot.edges, e'.src = e.src ∧ e'.dst = e.dst ∧
    e'.relation = e.relation ∧ e'.weight = e.weight ∧ e'.confidence = e.confidence

theorem ProjectionOK.agrees (hg : ProjectionOK digest now g) :
    AgreesWith g now (g.snapshotAt digest now now) := by
  have hedges := fun e : SnapshotEdge F =>
    mem_snapshotAt_edges (e := e) hg.wf hg.known hg.merges
  have hread : ∀ r : EdgeRevision F, (r.snapshotEdge now (mergeMap [])).src = r.src ∧
      (r.snapshotEdge now (mergeMap [])).dst = r.dst ∧
      (r.snapshotEdge now (mergeMap [])).relation = r.relation :=
    fun r => ⟨resolveMerge_none r.src, resolveMerge_none r.dst, rfl⟩
  have hvalues : ∀ e ∈ g.allEdges now, ∃ e' ∈ (g.snapshotAt digest now now).edges,
      e'.src = e.src ∧ e'.dst = e.dst ∧ e'.relation = e.relation ∧ e'.weight = e.weight ∧
        e'.confidence = e.confidence := by
    intro e he
    obtain ⟨r, hr, hends, hweight, hconfidence⟩ := hg.inStep.sound e he
    unfold EdgeRevision.ends Edge.ends at hends
    simp only [Prod.mk.injEq] at hends
    obtain ⟨hsrc, hdst, hrelation⟩ := hread r
    exact ⟨_, (hedges _).2 ⟨r, hr, rfl⟩, hsrc.trans hends.1, hdst.trans hends.2.1,
      hrelation.trans hends.2.2, hweight, hconfidence⟩
  refine ⟨fun src dst relation => ⟨?_, ?_⟩, hvalues⟩
  · rintro ⟨e, he, rfl, rfl, rfl⟩
    obtain ⟨e', he', hsrc, hdst, hrelation, -⟩ := hvalues e he
    exact ⟨e', he', hsrc, hdst, hrelation⟩
  · rintro ⟨e, he, rfl, rfl, rfl⟩
    obtain ⟨r, hr, rfl⟩ := (hedges e).1 he
    obtain ⟨hsrc, hdst, hrelation⟩ := hread r
    obtain ⟨e', he', hends⟩ := hg.inStep.complete r hr
    unfold EdgeRevision.ends Edge.ends at hends
    simp only [Prod.mk.injEq] at hends
    exact ⟨e', he', hends.1.trans hsrc.symm, hends.2.1.trans hdst.symm, hends.2.2.trans hrelation.symm⟩

omit [F64 F] in
theorem projectionOK_start {nodes : List Node} (hnodes : (nodes.map Node.id).Nodup) :
    ProjectionOK digest now ({ nodes := nodes } : GraphStore F) where
  wf := { wf_empty digest with
    nodes := hnodes
    ends := fun _ h => absurd h List.not_mem_nil
    merged := fun _ h => absurd h List.not_mem_nil }
  merges := rfl
  known := fun _ h => absurd h List.not_mem_nil
  inStep := ⟨fun _ h => absurd h (by simp [GraphStore.allEdges]),
    fun _ h => absurd h.mem (by simp [GraphStore.history])⟩

/-- **The projection agrees with the history** at the time `now`, in every graph that calls of
`upsert_revision_at` lead to, recorded by then and each with the last word on its relation. -/
theorem projection_agrees (digest : ℕ → String → String) (nodes : List Node)
    (hnodes : (nodes.map Node.id).Nodup) (inputs : List (EdgeRevisionInput F)) (now : ℤ)
    (hnow : 0 ≤ now) (hrec : ∀ input ∈ inputs, input.recordedAt ≤ now)
    (hdecides : Run.Along (GraphStore.upserted digest) (DecidesIfRecorded digest now)
      { nodes := nodes } inputs) (clock : ℤ) :
    ∃ snapshot, (exec (graphAsOf digest clock now now)
        (Run.run (GraphStore.upserted digest) { nodes := nodes } inputs)).1 = .ok snapshot ∧
      AgreesWith (Run.run (GraphStore.upserted digest) { nodes := nodes } inputs) now snapshot := by
  have hrun : ∀ (inputs : List (EdgeRevisionInput F)) (g : GraphStore F),
      ProjectionOK digest now g → (∀ input ∈ inputs, input.recordedAt ≤ now) →
      Run.Along (GraphStore.upserted digest) (DecidesIfRecorded digest now) g inputs →
      ProjectionOK digest now (Run.run (GraphStore.upserted digest) g inputs) := by
    intro inputs
    induction inputs with
    | nil => exact fun g hg _ _ => hg
    | cons input rest ih =>
      intro g hg hrec hdecides
      exact ih _ (hg.step (hrec input List.mem_cons_self) hdecides.1)
        (fun i hi => hrec i (List.mem_cons_of_mem _ hi)) hdecides.2
  have hok := hrun inputs _ (projectionOK_start hnodes) hrec hdecides
  obtain ⟨g', hexec, -⟩ := exec_graphAsOf digest clock now now hnow hnow
    (Run.run (GraphStore.upserted digest) { nodes := nodes } inputs)
  exact ⟨_, congrArg Prod.fst hexec, hok.agrees⟩

/-- The reports of 2024 and of 2025, and what is shown at 400. -/
theorem annualSales_agree : ∃ snapshot,
    (exec (graphAsOf salesDigest 400 400 400) (Run.run (GraphStore.upserted salesDigest)
      { nodes := [supplier, customer] }
      [annualSales "2024" 100 120 130, annualSales "2025" 200 220 230])).1 = .ok snapshot ∧
    AgreesWith (Run.run (GraphStore.upserted salesDigest) { nodes := [supplier, customer] }
      [annualSales "2024" 100 120 130, annualSales "2025" 200 220 230]) 400 snapshot :=
  projection_agrees salesDigest [supplier, customer] (by decide) _ 400 (by decide) (by decide)
    (by decide +kernel) 400

/-- The report of 2024, and the one of 2023 that is recorded after it. -/
def lateSales : List (EdgeRevisionInput ℚ) :=
  let late := annualSales "2023" 50 60 140
  [annualSales "2024" 100 120 130, { late with edge := { late.edge with validTo := some 90 } }]

/-- A report on an earlier year that is recorded late takes the relation out of the projection. -/
theorem lateSales_disagree :
    ¬ ∀ (digest : ℕ → String → String) (nodes : List Node), (nodes.map Node.id).Nodup →
      ∀ (inputs : List (EdgeRevisionInput ℚ)) (now : ℤ), 0 ≤ now →
        (∀ input ∈ inputs, input.recordedAt ≤ now) → ∀ clock : ℤ,
          ∃ snapshot, (exec (graphAsOf digest clock now now)
              (Run.run (GraphStore.upserted digest) { nodes := nodes } inputs)).1 = .ok snapshot ∧
            AgreesWith (Run.run (GraphStore.upserted digest) { nodes := nodes } inputs) now
              snapshot := by
  intro h
  obtain ⟨snapshot, hsnapshot, hagrees⟩ :=
    h salesDigest [supplier, customer] (by decide) lateSales 200 (by decide) (by decide) 200
  obtain ⟨-, -, rfl⟩ := graphAsOf_ok hsnapshot
  have hshown : ∃ e ∈ ((Run.run (GraphStore.upserted salesDigest) { nodes := [supplier, customer] }
      lateSales).snapshotAt salesDigest 200 200).edges,
      e.src = supplier.id ∧ e.dst = customer.id ∧ e.relation = .supplies := by decide +kernel
  obtain ⟨e, he, -⟩ := (hagrees.relations _ _ _).2 hshown
  have hnone : (Run.run (GraphStore.upserted salesDigest) { nodes := [supplier, customer] }
      lateSales).allEdges 200 = [] := by decide +kernel
  rw [hnone] at he
  exact absurd he List.not_mem_nil

end Astock
