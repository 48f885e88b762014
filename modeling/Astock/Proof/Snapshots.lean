import Astock.Proof.GraphSteps

/-!
# Replaying a graph snapshot

* `SameHistory`: nobody can tell two graphs apart at knowledge times up to `k`; what is recorded
  later than `k` keeps it (`GraphChanges.sameHistory`).
* `snapshotAt_sameHistory`: the snapshots of two such graphs differ in their nodes at most.
* `asOf_immutable`: **what is recorded after a knowledge time changes no relation as of it.**
* `snapshot_replayed`: a snapshot that was taken is replayed as it was, whatever is recorded
  after its knowledge time, exactly when the nodes at the ends of its edges still read the same.
-/

namespace Astock

open Prog Bitemporal

attribute [local irreducible] Triple

variable {F : Type} {digest : ℕ → String → String} {g g' g'' : GraphStore F} {k : ℤ}

/-! ## What a snapshot reads -/

/-- A revision without the time it was superseded. -/
def RevisionRow.face (row : RevisionRow F) : RevisionRow F := { row with supersededAt := none }

def EdgeRevision.face (revision : EdgeRevision F) : EdgeRevision F :=
  { revision with supersededAt := none }

theorem keepLatest_map_face (selected : List (EdgeRevision F)) (revision : EdgeRevision F) :
    keepLatest (selected.map (·.face)) revision.face = (keepLatest selected revision).map (·.face) := by
  unfold keepLatest
  have hold : Table.find (fun r : EdgeRevision F => r.identityId) revision.face.identityId
      (selected.map (·.face)) =
      (Table.find (fun r : EdgeRevision F => r.identityId) revision.identityId selected).map
        (·.face) := Table.find_map fun _ => rfl
  have hrank : ∀ old : Option (EdgeRevision F), (old.map (·.face)).all
      (·.rank < revision.face.rank) = old.all (·.rank < revision.rank) := by
    intro old
    cases old <;> rfl
  dsimp only
  rw [hold, hrank]
  split
  · exact (Table.map_insertOrdered (fun _ => rfl) revision selected).symm
  · rfl

theorem selectLatest_map_face (revisions : List (EdgeRevision F)) :
    selectLatest (revisions.map (·.face)) = (selectLatest revisions).map (·.face) := by
  have hfold : ∀ l selected : List (EdgeRevision F), (l.map (·.face)).foldl keepLatest
      (selected.map (·.face)) = (l.foldl keepLatest selected).map (·.face) := by
    intro l
    induction l with
    | nil => exact fun _ => rfl
    | cons revision rest ih =>
      intro selected
      rw [List.map_cons, List.foldl_cons, List.foldl_cons, keepLatest_map_face, ih]
  exact hfold revisions []

/-! ## The same history -/

/-- Nobody can tell the graphs apart at knowledge times up to `k`. -/
structure SameHistory (k : ℤ) (g g' : GraphStore F) : Prop where
  identities : ∀ id row, g.identityOf id = some row → g'.identityOf id = some row
  revisions : SameAsOf RevisionRow.stamp RevisionRow.face k g.revisions g'.revisions
  merges : SameAsOf EntityMergeRevision.stamp id k g.merges g'.merges
  snapshots : ∀ id row, Table.find SnapshotRecord.snapshotId id g.snapshots = some row →
    Table.find SnapshotRecord.snapshotId id g'.snapshots = some row

theorem SameHistory.refl (g : GraphStore F) : SameHistory k g g :=
  ⟨fun _ _ h => h, .refl _, .refl _, fun _ _ h => h⟩

theorem SameHistory.trans (h : SameHistory k g g') (h' : SameHistory k g' g'') :
    SameHistory k g g'' where
  identities := fun id row hrow => h'.identities id row (h.identities id row hrow)
  revisions := h.revisions.trans h'.revisions
  merges := h.merges.trans h'.merges
  snapshots := fun id row hrow => h'.snapshots id row (h.snapshots id row hrow)

/-- **What is recorded later than `k`** leaves the history up to `k` as it is. -/
theorem GraphChange.sameHistory (h : GraphChange digest (k < ·) g g') : SameHistory k g g' := by
  cases h with
  | node n => exact { SameHistory.refl g with }
  | identity row _ _ _ _ =>
    exact { SameHistory.refl g with
      identities := fun id r hr => by
        rw [identityOf_addIdentity row (by rw [hr]; rfl)]
        exact hr }
  | supersede revisionId t ht =>
    have ht : k < t := ht
    refine { SameHistory.refl g with revisions := .map (fun row _ b j hj => ?_) fun row _ => ?_ }
    · split
      · have hlater : j < t := by omega
        exact Stamp.seen_supersede (s := row.stamp) hlater
      · exact Iff.rfl
    · split
      · rfl
      · rfl
  | revision row _ _ _ ht => exact { SameHistory.refl g with revisions := .append ht }
  | edge _ => exact { SameHistory.refl g with }
  | merge row _ _ _ ht => exact { SameHistory.refl g with merges := .append ht }
  | snapshot row _ _ =>
    exact { SameHistory.refl g with
      snapshots := fun id r hr => by
        unfold GraphStore.addSnapshot
        rw [Table.find_append, hr]
        rfl }

theorem GraphChanges.sameHistory (h : GraphChanges digest (k < ·) g g') : SameHistory k g g' := by
  induction h with
  | refl => exact .refl g
  | tail _ hstep ih => exact ih.trans hstep.sameHistory

/-! ## The same snapshot -/

theorem joined_face (g : GraphStore F) (row : RevisionRow F) :
    g.joined row.face = (g.joined row).map (·.face) := by
  unfold GraphStore.joined
  rw [Option.map_map]
  rfl

theorem loadAsOfRevisions_map_face (g : GraphStore F) (b k : ℤ) :
    (g.loadAsOfRevisions b k).map (·.face) =
      (((asOf RevisionRow.stamp b k g.revisions).map (·.face)).filterMap g.joined).insertionSort
        fun a b => a.position ≤ b.position := by
  unfold GraphStore.loadAsOfRevisions
  refine (List.map_insertionSort (fun a b => a.position ≤ b.position)
    (fun a b => a.position ≤ b.position) (fun r : EdgeRevision F => r.face) _
    fun _ _ _ _ => Iff.rfl).trans ?_
  congr 1
  rw [List.map_filterMap, List.filterMap_map]
  exact List.filterMap_congr fun row _ => (joined_face g row).symm

theorem loadAsOfRevisions_sameHistory (hg : g.WF digest) (h : SameHistory k g g') {b j : ℤ}
    (hj : j ≤ k) :
    (g'.loadAsOfRevisions b j).map (·.face) = (g.loadAsOfRevisions b j).map (·.face) := by
  rw [loadAsOfRevisions_map_face, loadAsOfRevisions_map_face, h.revisions b j hj]
  congr 1
  refine List.filterMap_congr fun face hface => ?_
  obtain ⟨row, hrow, rfl⟩ := List.mem_map.1 hface
  obtain ⟨identity, hid⟩ := Option.isSome_iff_exists.1 (hg.known row (mem_asOf.1 hrow).1)
  rw [joined_face, joined_face]
  unfold GraphStore.joined
  rw [hid, h.identities _ _ hid]

theorem loadAsOfMerges_sameHistory (h : SameHistory k g g') {b j : ℤ} (hj : j ≤ k) :
    g'.loadAsOfMerges b j = g.loadAsOfMerges b j := by
  have hmerges := h.merges b j hj
  rw [List.map_id, List.map_id] at hmerges
  unfold GraphStore.loadAsOfMerges
  rw [hmerges]

variable [F64 F]

/-- **A snapshot does not read when a revision was superseded.** -/
theorem buildSnapshot_map_face (b k : ℤ) (revisions : List (EdgeRevision F))
    (merges : List EntityMergeRevision) (nodes : List Node) :
    buildSnapshot digest b k (revisions.map (·.face)) merges nodes =
      buildSnapshot digest b k revisions merges nodes := by
  unfold buildSnapshot
  rw [selectLatest_map_face]
  have hfilter : ∀ p : EdgeRevision F → Bool, (∀ r, p r.face = p r) →
      ((selectLatest revisions).map (·.face)).filter p = ((selectLatest revisions).filter p).map
        (·.face) := by
    intro p hp
    rw [List.filter_map]
    congr 1
    exact List.filter_congr fun r _ => hp r
  have hmap : ∀ {β : Type} (f : EdgeRevision F → β) (l : List (EdgeRevision F)),
      (∀ r, f r.face = f r) → (l.map (·.face)).map f = l.map f := by
    intro β f l hf
    rw [List.map_map]
    exact List.map_congr_left fun r _ => hf r
  dsimp only
  rw [hfilter _ fun _ => rfl, hfilter _ fun _ => rfl, hfilter _ fun _ => rfl,
    hmap _ _ fun _ => rfl, hmap _ _ fun _ => rfl, List.length_map, List.length_map]

/-- **The same snapshot, but for the nodes.** -/
theorem snapshotAt_sameHistory (hg : g.WF digest) (h : SameHistory k g g') (b : ℤ) {j : ℤ}
    (hj : j ≤ k) :
    g'.snapshotAt digest b j =
      { g.snapshotAt digest b j with nodes := (g'.snapshotAt digest b j).nodes } := by
  have hsame : g'.snapshotAt digest b j = buildSnapshot digest b j (g.loadAsOfRevisions b j)
      (g.loadAsOfMerges b j) g'.allNodes := by
    unfold GraphStore.snapshotAt
    rw [← buildSnapshot_map_face, loadAsOfRevisions_sameHistory hg h hj,
      loadAsOfMerges_sameHistory h hj, buildSnapshot_map_face]
  rw [hsame]
  rfl

/-! ## The nodes -/

theorem mem_snapshotAt_nodes (hg : g.WF digest) (b j : ℤ) (n : Node) :
    n ∈ (g.snapshotAt digest b j).nodes ↔
      n.id ∈ endpointIds (g.snapshotAt digest b j).edges ∧ g.node n.id = some n := by
  have hnode : n ∈ g.nodes ↔ g.node n.id = some n :=
    ⟨Table.find_of_mem hg.nodes, Table.mem_of_find⟩
  unfold GraphStore.snapshotAt buildSnapshot GraphStore.allNodes
  dsimp only
  rw [List.mem_insertionSort, List.mem_filter, List.mem_insertionSort, hnode, decide_eq_true_iff]
  exact and_comm

/-- **The nodes of two such snapshots are the same** when the nodes their edges end at are. -/
theorem snapshotAt_nodes_iff (hg : g.WF digest) (hg' : g'.WF digest) {b j : ℤ}
    (hedges : (g'.snapshotAt digest b j).edges = (g.snapshotAt digest b j).edges) :
    (g'.snapshotAt digest b j).nodes = (g.snapshotAt digest b j).nodes ↔
      ∀ id ∈ endpointIds (g.snapshotAt digest b j).edges, g'.node id = g.node id := by
  have hmem := mem_snapshotAt_nodes hg b j
  have hmem' := mem_snapshotAt_nodes hg' b j
  rw [hedges] at hmem'
  constructor
  · intro hnodes id hid
    rw [hnodes] at hmem'
    refine Option.ext fun n => ?_
    constructor
    · intro hn
      obtain rfl := Table.key_of_find hn
      exact ((hmem n).1 ((hmem' n).2 ⟨hid, hn⟩)).2
    · intro hn
      obtain rfl := Table.key_of_find hn
      exact ((hmem' n).1 ((hmem n).2 ⟨hid, hn⟩)).2
  · intro hread
    have hsame : ∀ n, n ∈ (g'.snapshotAt digest b j).nodes ↔ n ∈ (g.snapshotAt digest b j).nodes := by
      intro n
      rw [hmem, hmem']
      exact and_congr_right fun hid => by rw [hread _ hid]
    have hsorted : ∀ h : GraphStore F,
        (h.snapshotAt digest b j).nodes.Pairwise fun m n => m.id ≤ n.id :=
      fun h => List.pairwise_insertionSort _ _
    have hnodup : ∀ h : GraphStore F, h.WF digest → (h.snapshotAt digest b j).nodes.Nodup := by
      intro h hh
      refine ((List.perm_insertionSort _ _).nodup_iff).2 (List.Nodup.filter _ ?_)
      exact ((List.perm_insertionSort _ _).nodup_iff).2 (List.Nodup.of_map _ hh.nodes)
    refine List.Perm.eq_of_pairwise (fun m n hm hn hle hge => ?_) (hsorted g') (hsorted g)
      ((List.perm_ext_iff_of_nodup (hnodup g' hg') (hnodup g hg)).2 hsame)
    -- of one id there is one node
    have hid : m.id = n.id := le_antisymm hle hge
    have hm' := ((hmem m).1 ((hsame m).1 hm)).2
    have hn' := ((hmem n).1 hn).2
    rw [hid, hn'] at hm'
    exact (Option.some.inj hm').symm

/-! ## Replays -/

omit [F64 F] in
theorem snapshotHash_inj (hdigest : Function.Injective (digest 40)) {b j b' j' : ℤ}
    {r m r' m' : List String}
    (h : snapshotHash digest b j r m = snapshotHash digest b' j' r' m') : b = b' ∧ j = j' := by
  unfold snapshotHash at h
  have htext := hdigest (Text.append_left_inj h)
  simp only [String.append_assoc] at htext
  obtain ⟨hb, htext⟩ := Text.int_bar_inj htext
  exact ⟨hb, (Text.int_bar_inj htext).1⟩

theorem exec_graphAsOf (digest : ℕ → String → String) (now b j : ℤ) (hb : 0 ≤ b) (hj : 0 ≤ j) (g : GraphStore F) :
    ∃ g', exec (graphAsOf digest now b j) g = (.ok (g.snapshotAt digest b j), g') ∧
      (Table.find SnapshotRecord.snapshotId (g.snapshotAt digest b j).snapshotId
        g'.snapshots).isSome := by
  unfold graphAsOf
  rw [exec_guardOr_bind, if_pos (by simp [hb, hj])]
  refine ⟨_, rfl, ?_⟩
  dsimp only
  split
  · assumption
  · rename_i hnew
    rw [Option.not_isSome_iff_eq_none] at hnew
    unfold GraphStore.addSnapshot
    rw [Table.find_append, hnew]
    simp [Table.find]

/-- A snapshot that was taken is that of the graph then, at its clocks. -/
theorem graphAsOf_ok {now b j : ℤ} {snapshot : GraphSnapshot F}
    (h : (exec (graphAsOf digest now b j) g).1 = .ok snapshot) :
    0 ≤ b ∧ 0 ≤ j ∧ snapshot = g.snapshotAt digest b j := by
  by_cases hclocks : 0 ≤ b ∧ 0 ≤ j
  · obtain ⟨g', hexec, -⟩ := exec_graphAsOf digest now b j hclocks.1 hclocks.2 g
    rw [hexec] at h
    exact ⟨hclocks.1, hclocks.2, (Except.ok.inj h).symm⟩
  · unfold graphAsOf at h
    rw [exec_guardOr_bind, if_neg (by simpa using hclocks)] at h
    exact absurd h (by simp)

theorem run_changes (calls : List (GraphCall F)) (g : GraphStore F)
    (hlater : ∀ c ∈ calls, ∀ t ∈ c.recordedAt, k < t) :
    GraphChanges digest (k < ·) g (Run.run (GraphStore.after digest) g calls) := by
  induction calls generalizing g with
  | nil => exact .refl
  | cons c calls ih =>
    exact (prog_changes c (hlater c List.mem_cons_self) g).trans
      (ih _ fun c hc => hlater c (List.mem_cons_of_mem _ hc))

/-- A snapshot without its nodes: the relations, what was selected for them, and the counts. -/
def GraphSnapshot.relations (snapshot : GraphSnapshot F) : GraphSnapshot F :=
  { snapshot with nodes := [] }

omit [F64 F] in
theorem GraphSnapshot.relations_nodes (snapshot : GraphSnapshot F) (nodes : List Node) :
    ({ snapshot with nodes := nodes } : GraphSnapshot F).relations = snapshot.relations := rfl

/-- **Knowledge is immutable**: whatever is recorded after the knowledge time `k`, corrections and
merges included, the snapshot at `b` and `k` has the same relations, ids and counts. -/
theorem asOf_immutable (digest : ℕ → String → String) (g : GraphStore F) (hg : g.Reachable digest)
    (now now' b k : ℤ) (calls : List (GraphCall F))
    (hlater : ∀ c ∈ calls, ∀ t ∈ c.recordedAt, k < t) :
    (exec (graphAsOf digest now' b k) (Run.run (GraphStore.after digest) g calls)).1.map
        GraphSnapshot.relations =
      (exec (graphAsOf digest now b k) g).1.map GraphSnapshot.relations := by
  by_cases hclocks : 0 ≤ b ∧ 0 ≤ k
  · obtain ⟨hb, hk⟩ := hclocks
    have hchanges : GraphChanges digest (k < ·) g (Run.run (GraphStore.after digest) g calls) :=
      run_changes calls g hlater
    obtain ⟨g₁, hbefore, -⟩ := exec_graphAsOf digest now b k hb hk g
    obtain ⟨g₂, hafter, -⟩ := exec_graphAsOf digest now' b k hb hk
      (Run.run (GraphStore.after digest) g calls)
    have hsame := snapshotAt_sameHistory (reachable_wf hg) hchanges.sameHistory b le_rfl
    rw [hbefore, hafter, hsame]
    exact congrArg Except.ok (GraphSnapshot.relations_nodes ..)
  · -- negative clocks are refused, before the calls and after them
    have hrefused : ∀ (t : ℤ) (h : GraphStore F), (exec (graphAsOf digest t b k) h).1 =
        .error (.invalid "图谱时间不能为负数") := by
      intro t h
      unfold graphAsOf
      rw [exec_guardOr_bind, if_neg (by simpa using hclocks)]
    rw [hrefused, hrefused]

/-- The graph after taking a snapshot at the clocks `b` and `k`, and the calls after that. -/
def GraphStore.afterSnapshot (digest : ℕ → String → String) (g : GraphStore F) (now b k : ℤ)
    (calls : List (GraphCall F)) : GraphStore F :=
  Run.run (GraphStore.after digest) (exec (graphAsOf digest now b k) g).2 calls

/-- What a snapshot is replayed as, by its id. -/
def GraphStore.replay (digest : ℕ → String → String) (g : GraphStore F) (now : ℤ)
    (snapshotId : String) : Except GraphError (Option (GraphSnapshot F)) :=
  (exec (graphSnapshot digest now snapshotId) g).1

/-- **Snapshots are replayed, but for their nodes**: whatever is recorded after its knowledge
time, a snapshot that was taken is replayed with the same relations, ids and counts, and as it
was exactly when the nodes that its edges end at still read the same. -/
theorem snapshot_replayed (digest : ℕ → String → String) (hdigest : Function.Injective (digest 40))
    (g : GraphStore F) (hg : g.Reachable digest) (now b k : ℤ) (snapshot : GraphSnapshot F)
    (htaken : (exec (graphAsOf digest now b k) g).1 = .ok snapshot) (calls : List (GraphCall F))
    (hlater : ∀ c ∈ calls, ∀ t ∈ c.recordedAt, k < t) (now' : ℤ) :
    (∃ nodes, (g.afterSnapshot digest now b k calls).replay digest now' snapshot.snapshotId =
      .ok (some { snapshot with nodes := nodes })) ∧
    ((g.afterSnapshot digest now b k calls).replay digest now' snapshot.snapshotId =
        .ok (some snapshot) ↔
      ∀ id ∈ endpointIds snapshot.edges,
        (g.afterSnapshot digest now b k calls).node id = g.node id) := by
  obtain ⟨hb, hk, rfl⟩ := graphAsOf_ok htaken
  have hwf := reachable_wf hg
  obtain ⟨g₁, hexec, hrow⟩ := exec_graphAsOf digest now b k hb hk g
  -- taking the snapshot and the calls keep the history up to `k`
  have hchanges : GraphChanges digest (k < ·) g (g.afterSnapshot digest now b k calls) := by
    have hfirst : GraphChanges digest (k < ·) g (g.after digest (.graphAsOf now b k)) :=
      prog_changes _ (fun _ h => absurd h (by simp [GraphCall.recordedAt])) g
    unfold GraphStore.after GraphCall.prog at hfirst
    rw [exec_bind_ok hexec, exec_pure] at hfirst
    unfold GraphStore.afterSnapshot
    rw [hexec]
    exact hfirst.trans (run_changes calls g₁ hlater)
  have hlast : GraphChanges digest (k < ·) g₁ (g.afterSnapshot digest now b k calls) := by
    unfold GraphStore.afterSnapshot
    rw [hexec]
    exact run_changes calls g₁ hlater
  have hwf' := hchanges.wf hwf
  have hsame := snapshotAt_sameHistory hwf hchanges.sameHistory b le_rfl
  -- the row with the id has the clocks of the snapshot
  obtain ⟨row, hrow⟩ := Option.isSome_iff_exists.1 hrow
  have hfind := hlast.sameHistory.snapshots _ row hrow
  have hid := hwf'.snapshots row (Table.mem_of_find hfind)
  rw [Table.key_of_find hfind] at hid
  obtain ⟨hb', hk'⟩ := snapshotHash_inj hdigest hid
  have hreplay : (g.afterSnapshot digest now b k calls).replay digest now'
      (g.snapshotAt digest b k).snapshotId =
      .ok (some ((g.afterSnapshot digest now b k calls).snapshotAt digest b k)) := by
    obtain ⟨g₂, hexec₂, -⟩ := exec_graphAsOf digest now' b k hb hk
      (g.afterSnapshot digest now b k calls)
    unfold GraphStore.replay graphSnapshot
    rw [exec_bind_ok (exec_get _), hfind]
    dsimp only
    rw [← hb', ← hk', exec_bind_ok hexec₂, exec_guardOr_bind, if_pos (by rw [hsame]; simp)]
    rfl
  rw [hreplay]
  refine ⟨⟨_, by rw [hsame]⟩, ?_⟩
  rw [← snapshotAt_nodes_iff hwf hwf' (by rw [hsame])]
  constructor
  · intro h
    rw [Option.some.inj (Except.ok.inj h)]
  · intro hnodes
    rw [hsame, hnodes]

/-! ## A relation that is reported again, and a company that is renamed -/

def supplier : Node where
  id := "company:600001"
  kind := .company
  name := "供应商甲"
  code := some "600001"
  metadata := .obj []

def customer : Node where
  id := "company:600002"
  kind := .company
  name := "客户乙"
  code := some "600002"
  metadata := .obj []

/-- The supplier's sales to the customer as one annual report has them. -/
def annualSales (year : String) (validFrom observedAt recordedAt : ℤ) : EdgeRevisionInput ℚ where
  edge := {
    src := supplier.id
    dst := customer.id
    relation := .supplies
    weight := 1 / 2
    sourceName := "供应商甲" ++ year ++ "年报"
    sourceUrl := "https://example.com/" ++ year
    confidence := 3 / 4
    validFrom := validFrom }
  sourceType := .annualReport
  evidenceVersion := year
  status := .active
  observedAt := observedAt
  recordedAt := recordedAt
  metadata := .obj []

/-- The digests of the texts below; every other text stands for its own. -/
def salesDigest (n : ℕ) : String → String :=
  if n = 40 then
    (Equiv.swap "edge:0ba5c2b95bbbf3f2d263b5a6a68d8921|2024|100|9223372036854775807|120|Active|4602678819172646912|4604930618986332160|0|供应商甲2024年报|https://example.com/2024|None|\x7b\x7d"
      "53cfb637dd4e6887fa81e0727ec780e22dcab83c").trans
    ((Equiv.swap "edge:0ba5c2b95bbbf3f2d263b5a6a68d8921|2025|200|9223372036854775807|220|Active|4602678819172646912|4604930618986332160|0|供应商甲2025年报|https://example.com/2025|None|\x7b\x7d"
      "b486690395b2bd70c6e881be4e1b6912ee67d726").trans
    (Equiv.swap "150|130|edge-rev:53cfb637dd4e6887fa81e0727ec780e22dcab83c|"
      "206c0e2c47b9931c7b516df3c792da7979573b5e"))
  else Equiv.swap "company:600001|company:600002|supplies||" "0ba5c2b95bbbf3f2d263b5a6a68d8921"

theorem salesDigest_inj (n : ℕ) : Function.Injective (salesDigest n) := by
  unfold salesDigest
  split <;> exact Equiv.injective _

/-- The report of 2024 is recorded at 130. -/
def sales2024 : GraphStore ℚ := Run.run (GraphStore.after salesDigest) {}
  [.upsertNode supplier, .upsertNode customer, .upsertRevisionAt (annualSales "2024" 100 120 130)]

def snapshot2024 : GraphSnapshot ℚ := sales2024.snapshotAt salesDigest 150 130

example : snapshot2024.snapshotId = "graph-snapshot:206c0e2c47b9931c7b516df3c792da7979573b5e" := by
  decide +kernel

theorem snapshot2024_taken : (exec (graphAsOf salesDigest 300 150 130) sales2024).1 =
    .ok snapshot2024 := by
  obtain ⟨g', hexec, -⟩ := exec_graphAsOf salesDigest 300 150 130 (by decide) (by decide) sales2024
  rw [hexec]
  rfl

/-- The report of 2025 is recorded at 230, and the nodes are loaded once more. -/
def later2025 : List (GraphCall ℚ) :=
  [.upsertNode supplier, .upsertNode customer, .upsertRevisionAt (annualSales "2025" 200 220 230)]

theorem sales2024_replayed :
    (sales2024.afterSnapshot salesDigest 300 150 130 later2025).replay salesDigest 400
      snapshot2024.snapshotId = .ok (some snapshot2024) := by
  refine (snapshot_replayed salesDigest (salesDigest_inj 40) sales2024 ⟨_, rfl⟩ 300 150 130
    snapshot2024 snapshot2024_taken later2025 ?_ 400).2.2 ?_
  · intro c hc t ht
    simp only [later2025, List.mem_cons, List.not_mem_nil, or_false] at hc
    rcases hc with rfl | rfl | rfl
    · simp [GraphCall.recordedAt] at ht
    · simp [GraphCall.recordedAt] at ht
    · obtain rfl := Option.some.inj ht
      decide
  · decide +kernel

/-- At 230 the relation is corrected, and the customer merged into the supplier. -/
def corrected2024 : List (GraphCall ℚ) :=
  [.recordRevisionAt { annualSales "2025" 100 220 230 with
      supersedesRevisionId := some "edge-rev:53cfb637dd4e6887fa81e0727ec780e22dcab83c" },
    .recordEntityMergeAt customer.id supplier.id 0 none 230 "同一主体"]

theorem sales2024_immutable :
    (exec (graphAsOf salesDigest 400 150 130)
        (Run.run (GraphStore.after salesDigest) sales2024 corrected2024)).1.map
          GraphSnapshot.relations =
      (exec (graphAsOf salesDigest 300 150 130) sales2024).1.map GraphSnapshot.relations := by
  refine asOf_immutable salesDigest sales2024 ⟨_, rfl⟩ 300 400 150 130 corrected2024 ?_
  intro c hc t ht
  simp only [corrected2024, List.mem_cons, List.not_mem_nil, or_false] at hc
  rcases hc with rfl | rfl
  · obtain rfl := Option.some.inj ht
    decide
  · obtain rfl := Option.some.inj ht
    decide

/-- A company of a snapshot is renamed, and so in the snapshot. -/
theorem renamed_not_replayed :
    ¬ ∀ (digest : ℕ → String → String), Function.Injective (digest 40) →
      ∀ g : GraphStore ℚ, g.Reachable digest → ∀ (now b k : ℤ) (snapshot : GraphSnapshot ℚ),
        (exec (graphAsOf digest now b k) g).1 = .ok snapshot → ∀ calls : List (GraphCall ℚ),
          (∀ c ∈ calls, ∀ t ∈ c.recordedAt, k < t) → ∀ now' : ℤ,
            (g.afterSnapshot digest now b k calls).replay digest now' snapshot.snapshotId =
              .ok (some snapshot) := by
  intro h
  have hreplay := h salesDigest (salesDigest_inj 40) sales2024 ⟨_, rfl⟩ 300 150 130 snapshot2024
    snapshot2024_taken [.upsertNode { customer with name := "客户乙新主体" }] (by
      intro c hc t ht
      obtain rfl := List.mem_singleton.1 hc
      simp [GraphCall.recordedAt] at ht) 400
  have hnames := congrArg (fun r => r.toOption.bind fun s => s.map fun s => s.nodes.map (·.name)) hreplay
  exact absurd hnames (by decide +kernel)

end Astock
