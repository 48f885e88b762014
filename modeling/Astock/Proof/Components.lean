import Astock.Spec.GraphAnalysis
import Mathlib.Combinatorics.SimpleGraph.Connectivity.Connected

/-!
# The connected components of the graph

* `linkGraph`: the listed nodes, joined by the edges whose ends are both listed, in either direction.
* `unionEdges_end`: the forest after the edges has the classes of `linkGraph` (`root_iff`).
* `groupByRoot_end`: the groups are these classes.
* `components_classes`: **the components are the reachability classes**.
-/

namespace Astock

open UnionFind

variable {F : Type} {nodes : List Node} {edges : List (Edge F)}

/-- The undirected graph of the listed nodes. -/
def linkGraph (nodes : List Node) (edges : List (Edge F)) : SimpleGraph String :=
  SimpleGraph.fromRel fun u v =>
    u ∈ nodes.map Node.id ∧ v ∈ nodes.map Node.id ∧ ∃ e ∈ edges, e.src = u ∧ e.dst = v

/-! ## Indices -/

theorem nodeIndex_eq_none {id : String} : nodeIndex nodes id = none ↔ id ∉ nodes.map Node.id := by
  rw [nodeIndex, Option.map_eq_none_iff, List.find?_eq_none]
  constructor
  · intro h hmem
    obtain ⟨n, hn, rfl⟩ := List.mem_map.1 hmem
    obtain ⟨i, hi⟩ := List.mem_iff_getElem?.1 hn
    have hnot := h (n, i) (List.mem_reverse.2 (List.mem_zipIdx_iff_getElem?.2 hi))
    simp at hnot
  · rintro h ⟨n, i⟩ hn
    have hi := List.mem_zipIdx_iff_getElem?.1 (List.mem_reverse.1 hn)
    have hne : n.id ≠ id := fun heq => h (heq ▸ List.mem_map_of_mem (List.mem_of_getElem? hi))
    simpa using hne

theorem nodeIndex_sound {id : String} {i : ℕ} (h : nodeIndex nodes id = some i) :
    ∃ n, nodes[i]? = some n ∧ n.id = id := by
  obtain ⟨⟨n, j⟩, hfind, rfl⟩ := Option.map_eq_some_iff.1 h
  have hmem := List.mem_reverse.1 (List.mem_of_find?_eq_some hfind)
  have hid := List.find?_some hfind
  exact ⟨n, List.mem_zipIdx_iff_getElem?.1 hmem, by simpa using hid⟩

theorem index_unique (hd : (nodes.map Node.id).Nodup) {i j : ℕ} {n m : Node}
    (hi : nodes[i]? = some n) (hj : nodes[j]? = some m) (hid : n.id = m.id) : i = j := by
  have hlen : i < (nodes.map Node.id).length := by
    rw [List.length_map]
    exact (List.getElem?_eq_some_iff.1 hi).1
  refine (List.getElem?_inj hlen hd).1 ?_
  rw [List.getElem?_map, List.getElem?_map, hi, hj]
  exact congrArg some hid

theorem nodeIndex_of_getElem? (hd : (nodes.map Node.id).Nodup) {i : ℕ} {n : Node}
    (h : nodes[i]? = some n) : nodeIndex nodes n.id = some i := by
  cases hidx : nodeIndex nodes n.id with
  | none =>
    exact absurd (List.mem_map_of_mem (List.mem_of_getElem? h)) (nodeIndex_eq_none.1 hidx)
  | some j =>
    obtain ⟨m, hm, hid⟩ := nodeIndex_sound hidx
    rw [index_unique hd h hm hid.symm]

theorem edgeEnds_eq_some {edge : Edge F} {s d : ℕ} : edgeEnds nodes edge = some (s, d) ↔
    nodeIndex nodes edge.src = some s ∧ nodeIndex nodes edge.dst = some d := by
  unfold edgeEnds
  cases nodeIndex nodes edge.src with
  | none => simp
  | some s' =>
    cases nodeIndex nodes edge.dst with
    | none => simp
    | some d' => simp

/-- The ends of the edges that count. -/
abbrev endPairs (nodes : List Node) (edges : List (Edge F)) : List (ℕ × ℕ) :=
  edges.filterMap (edgeEnds nodes)

theorem endPairs_lt {p : ℕ × ℕ} (hp : p ∈ endPairs nodes edges) :
    p.1 < nodes.length ∧ p.2 < nodes.length := by
  obtain ⟨e, -, he⟩ := List.mem_filterMap.1 hp
  obtain ⟨hs, hd⟩ := edgeEnds_eq_some.1 he
  obtain ⟨n, hn, -⟩ := nodeIndex_sound hs
  obtain ⟨m, hm, -⟩ := nodeIndex_sound hd
  exact ⟨(List.getElem?_eq_some_iff.1 hn).1, (List.getElem?_eq_some_iff.1 hm).1⟩

/-! ## The classes of the indices are those of the ids -/

/-- The id at an index. -/
def idAt (nodes : List Node) (i : ℕ) : String := ((nodes[i]?).map Node.id).getD ""

theorem idAt_of_getElem? {i : ℕ} {n : Node} (h : nodes[i]? = some n) : idAt nodes i = n.id := by
  rw [idAt, h]
  rfl

theorem reachable_of_eqvGen {i j : ℕ}
    (h : Relation.EqvGen (fun a b => (a, b) ∈ endPairs nodes edges) i j) :
    (linkGraph nodes edges).Reachable (idAt nodes i) (idAt nodes j) := by
  induction h with
  | rel a b hab =>
    obtain ⟨e, he, hends⟩ := List.mem_filterMap.1 hab
    obtain ⟨hs, hd⟩ := edgeEnds_eq_some.1 hends
    obtain ⟨n, hn, hsrc⟩ := nodeIndex_sound hs
    obtain ⟨m, hm, hdst⟩ := nodeIndex_sound hd
    rw [idAt_of_getElem? hn, idAt_of_getElem? hm]
    by_cases heq : n.id = m.id
    · rw [heq]
    · refine SimpleGraph.Adj.reachable ((SimpleGraph.fromRel_adj _ _ _).2 ⟨heq, .inl ⟨?_, ?_, e, he, ?_, ?_⟩⟩)
      · exact List.mem_map_of_mem (List.mem_of_getElem? hn)
      · exact List.mem_map_of_mem (List.mem_of_getElem? hm)
      · exact hsrc.symm
      · exact hdst.symm
  | refl a => exact .refl _
  | symm a b _ ih => exact ih.symm
  | trans a b c _ _ ih ih' => exact ih.trans ih'

/-- What an index reaches has an index in its class. -/
theorem eqvGen_of_reachable (hd : (nodes.map Node.id).Nodup) {i : ℕ} {n : Node}
    (hi : nodes[i]? = some n) {v : String} (h : (linkGraph nodes edges).Reachable n.id v) :
    ∃ j m, nodes[j]? = some m ∧ m.id = v ∧
      Relation.EqvGen (fun a b => (a, b) ∈ endPairs nodes edges) i j := by
  rw [SimpleGraph.reachable_iff_reflTransGen] at h
  induction h with
  | refl => exact ⟨i, n, hi, rfl, .refl _⟩
  | @tail u v _ hadj ih =>
    obtain ⟨j, m, hj, rfl, hij⟩ := ih
    obtain ⟨-, hrel⟩ := (SimpleGraph.fromRel_adj _ _ _).1 hadj
    rcases hrel with ⟨-, hv, e, he, hsrc, hdst⟩ | ⟨hv, -, e, he, hsrc, hdst⟩
    · obtain ⟨m', hm', rfl⟩ := List.mem_map.1 hv
      obtain ⟨k, hk⟩ := List.mem_iff_getElem?.1 hm'
      refine ⟨k, m', hk, rfl, hij.trans _ _ _ (.rel _ _ (List.mem_filterMap.2 ⟨e, he, ?_⟩))⟩
      rw [edgeEnds_eq_some, hsrc, hdst]
      exact ⟨nodeIndex_of_getElem? hd hj, nodeIndex_of_getElem? hd hk⟩
    · obtain ⟨m', hm', rfl⟩ := List.mem_map.1 hv
      obtain ⟨k, hk⟩ := List.mem_iff_getElem?.1 hm'
      refine ⟨k, m', hk, rfl,
        hij.trans _ _ _ (.symm _ _ (.rel _ _ (List.mem_filterMap.2 ⟨e, he, ?_⟩)))⟩
      rw [edgeEnds_eq_some, hsrc, hdst]
      exact ⟨nodeIndex_of_getElem? hd hk, nodeIndex_of_getElem? hd hj⟩

theorem eqvGen_iff_reachable (hd : (nodes.map Node.id).Nodup) {i j : ℕ} {n m : Node}
    (hi : nodes[i]? = some n) (hj : nodes[j]? = some m) :
    Relation.EqvGen (fun a b => (a, b) ∈ endPairs nodes edges) i j ↔
      (linkGraph nodes edges).Reachable n.id m.id := by
  constructor
  · intro h
    have hreach := reachable_of_eqvGen h
    rwa [idAt_of_getElem? hi, idAt_of_getElem? hj] at hreach
  · intro h
    obtain ⟨k, m', hk, hid, hik⟩ := eqvGen_of_reachable hd hi h
    rwa [index_unique hd hk hj hid] at hik

/-- **The forest after the edges** has the reachability classes. -/
theorem unionEdges_end (hd : (nodes.map Node.id).Nodup) (edges : List (Edge F)) :
    ∃ parent root depth, unionEdges nodes edges = some parent ∧ parent.length = nodes.length ∧
      Forest parent root depth ∧ ∀ i j n m, nodes[i]? = some n → nodes[j]? = some m →
        (root i = root j ↔ (linkGraph nodes edges).Reachable n.id m.id) := by
  obtain ⟨parent, root, depth, hrun, hlen, hclasses⟩ :=
    joins_end fun p (hp : p ∈ endPairs nodes edges) => endPairs_lt hp
  refine ⟨parent, root, depth, ?_, hlen, hclasses.forest, fun i j n m hi hj => ?_⟩
  · rw [List.foldlM_filterMap] at hrun
    rw [← hrun, unionEdges]
    congr 1
    funext parent edge
    cases edgeEnds nodes edge with
    | none => rfl
    | some p => rfl
  · rw [hclasses.root_iff, eqvGen_iff_reachable hd hi hj]

/-! ## The groups -/

/-- The ids with the root `r`. -/
def members (root : ℕ → ℕ) (r : ℕ) (entries : List (Node × ℕ)) : List String :=
  (entries.filter fun entry => root entry.2 = r).map fun entry => entry.1.id

structure Grouped (root : ℕ → ℕ) (entries : List (Node × ℕ)) (groups : List (ℕ × List String)) :
    Prop where
  nodup : (groups.map Prod.fst).Nodup
  mem_iff : ∀ r ms, (r, ms) ∈ groups ↔ ms ≠ [] ∧ ms = members root r entries

/-- A group has the members so far, also when there is none. -/
theorem Grouped.find_getD {root : ℕ → ℕ} {entries : List (Node × ℕ)}
    {groups : List (ℕ × List String)} (h : Grouped root entries groups) (r : ℕ) :
    ((Table.find Prod.fst r groups).map Prod.snd).getD [] = members root r entries := by
  cases hfind : Table.find Prod.fst r groups with
  | none =>
    by_contra hne
    have hmem := (h.mem_iff r (members root r entries)).2 ⟨fun heq => hne heq.symm, rfl⟩
    exact (Table.find_eq_none Prod.fst).1 hfind _ hmem rfl
  | some group =>
    obtain rfl := Table.key_of_find hfind
    exact ((h.mem_iff _ _).1 (Table.mem_of_find hfind)).2

theorem Grouped.entry {root : ℕ → ℕ} {entries : List (Node × ℕ)}
    {groups : List (ℕ × List String)} (h : Grouped root entries groups) (n : Node) (i : ℕ) :
    Grouped root (entries ++ [(n, i)]) (Table.entry (root i) [] (· ++ [n.id]) groups) where
  nodup := Table.nodup_insertOrdered h.nodup
  mem_iff := by
    intro r ms
    rw [Table.entry, Table.mem_insertOrdered, h.find_getD]
    by_cases hr : root i = r
    · have hmembers : members root r (entries ++ [(n, i)]) = members root r entries ++ [n.id] := by
        simp [members, hr]
      rw [hmembers, hr]
      constructor
      · rintro (heq | ⟨-, hne⟩)
        · obtain rfl := (Prod.mk.inj heq).2
          exact ⟨by simp, rfl⟩
        · exact absurd rfl hne
      · rintro ⟨-, rfl⟩
        exact .inl rfl
    · have hmembers : members root r (entries ++ [(n, i)]) = members root r entries := by
        simp [members, hr]
      rw [hmembers, ← h.mem_iff]
      constructor
      · rintro (heq | ⟨hmem, -⟩)
        · exact absurd (Prod.mk.inj heq).1.symm hr
        · exact hmem
      · intro hmem
        exact .inr ⟨hmem, fun heq => hr heq.symm⟩

/-- **The groups are the members of the roots.** -/
theorem groupByRoot_end {parent : List ℕ} {root depth : ℕ → ℕ} (h : Forest parent root depth)
    (hlen : parent.length = nodes.length) : ∃ parent' groups,
      groupByRoot parent nodes = some (parent', groups) ∧ Grouped root nodes.zipIdx groups := by
  have hrun : ∀ (rest done : List (Node × ℕ)) parent groups, Forest parent root depth →
      Grouped root done groups → (∀ entry ∈ rest, entry.2 < parent.length) →
      ∃ parent' groups', rest.foldlM (fun state entry => do
          let found ← find state.1 entry.2
          some (found.1, Table.entry found.2 [] (· ++ [entry.1.id]) state.2)) (parent, groups) =
        some (parent', groups') ∧ Grouped root (done ++ rest) groups' := by
    intro rest
    induction rest with
    | nil =>
      intro done parent groups _ hg _
      exact ⟨parent, groups, rfl, by rwa [List.append_nil]⟩
    | cons entry rest ih =>
      intro done parent groups hf hg hrest
      obtain ⟨n, i⟩ := entry
      obtain ⟨hi, hrest⟩ := List.forall_mem_cons.1 hrest
      obtain ⟨q, hq, hqf, hqlen, -, -⟩ := find_ends hf hi
      obtain ⟨parent', groups', hrun, hend⟩ := ih (done ++ [(n, i)]) q _ hqf (hg.entry n i)
        fun entry he => hqlen ▸ hrest entry he
      refine ⟨parent', groups', ?_, by rwa [List.append_assoc] at hend⟩
      rw [List.foldlM_cons]
      dsimp only
      rw [hq]
      exact hrun
  refine hrun nodes.zipIdx [] parent [] h ⟨List.nodup_nil, fun r ms => ?_⟩ fun entry he => ?_
  · simp only [members, List.filter_nil, List.map_nil, List.not_mem_nil, false_iff]
    rintro ⟨hne, heq⟩
    exact hne heq
  · rw [hlen]
    exact (List.getElem?_eq_some_iff.1 (List.mem_zipIdx_iff_getElem?.1 he)).1

theorem mem_members {root : ℕ → ℕ} {r : ℕ} {u : String} :
    u ∈ members root r nodes.zipIdx ↔ ∃ i n, nodes[i]? = some n ∧ n.id = u ∧ root i = r := by
  simp only [members, List.mem_map, List.mem_filter, decide_eq_true_eq, Prod.exists,
    List.mem_zipIdx_iff_getElem?]
  constructor
  · rintro ⟨n, i, ⟨hi, hr⟩, hid⟩
    exact ⟨i, n, hi, hid, hr⟩
  · rintro ⟨i, n, hi, hid, hr⟩
    exact ⟨n, i, ⟨hi, hr⟩, hid⟩

theorem members_nodup (hd : (nodes.map Node.id).Nodup) (root : ℕ → ℕ) (r : ℕ) :
    (members root r nodes.zipIdx).Nodup := by
  have hsub : (members root r nodes.zipIdx).Sublist (nodes.zipIdx.map fun entry => entry.1.id) :=
    List.filter_sublist.map _
  refine hd.sublist ?_
  have hmap : nodes.zipIdx.map (fun entry => entry.1.id) = nodes.map Node.id := by
    have hcomp : nodes.zipIdx.map (fun entry => entry.1.id) = (nodes.zipIdx.map Prod.fst).map Node.id :=
      List.map_map.symm
    rw [hcomp, List.zipIdx_map_fst]
  rwa [hmap] at hsub

/-! ## The components -/

theorem componentLe_trans (a b c : List String) (hab : componentLe a b) (hbc : componentLe b c) :
    componentLe a c := by
  rcases hab with hab | ⟨hab, hle⟩
  · rcases hbc with hbc | ⟨hbc, -⟩
    · exact .inl (by omega)
    · exact .inl (by omega)
  · rcases hbc with hbc | ⟨hbc, hle'⟩
    · exact .inl (by omega)
    · exact .inr ⟨by omega, hle.trans hle'⟩

theorem componentLe_total (a b : List String) : componentLe a b ∨ componentLe b a := by
  rcases lt_trichotomy a.length b.length with h | h | h
  · exact .inr (.inl h)
  · exact (le_total a b).imp (fun hle => .inr ⟨h, hle⟩) fun hle => .inr ⟨h.symm, hle⟩
  · exact .inl (.inl h)

variable {root : ℕ → ℕ} {groups : List (ℕ × List String)}

/-- The groups with their members in order. -/
abbrev sortedGroups (groups : List (ℕ × List String)) : List (List String) :=
  groups.map fun group => group.2.insertionSort (· ≤ ·)

theorem mem_sorted {l : List String} {u : String} : u ∈ l.insertionSort (· ≤ ·) ↔ u ∈ l :=
  (List.perm_insertionSort (· ≤ ·) l).mem_iff

theorem Grouped.mem_sortedGroups (h : Grouped root nodes.zipIdx groups) {c : List String} :
    c ∈ sortedGroups groups ↔ ∃ r, members root r nodes.zipIdx ≠ [] ∧
      c = (members root r nodes.zipIdx).insertionSort (· ≤ ·) := by
  rw [List.mem_map]
  constructor
  · rintro ⟨⟨r, ms⟩, hmem, rfl⟩
    obtain ⟨hne, rfl⟩ := (h.mem_iff r ms).1 hmem
    exact ⟨r, hne, rfl⟩
  · rintro ⟨r, hne, rfl⟩
    exact ⟨(r, members root r nodes.zipIdx), (h.mem_iff _ _).2 ⟨hne, rfl⟩, rfl⟩

/-- Every listed id is in the group of its root. -/
theorem Grouped.mem_component (h : Grouped root nodes.zipIdx groups) {i : ℕ} {n : Node}
    (hi : nodes[i]? = some n) : ∃ c ∈ sortedGroups groups, ∀ u, u ∈ c ↔
      ∃ j m, nodes[j]? = some m ∧ m.id = u ∧ root j = root i := by
  have hmem : n.id ∈ members root (root i) nodes.zipIdx := mem_members.2 ⟨i, n, hi, rfl, rfl⟩
  exact ⟨_, h.mem_sortedGroups.2 ⟨root i, List.ne_nil_of_mem hmem, rfl⟩,
    fun u => mem_sorted.trans mem_members⟩

theorem Grouped.disjoint (hd : (nodes.map Node.id).Nodup) (h : Grouped root nodes.zipIdx groups) :
    (sortedGroups groups).Pairwise List.Disjoint := by
  refine List.pairwise_map.2 (List.Pairwise.imp_of_mem ?_ (List.pairwise_map.1 h.nodup))
  rintro ⟨r, ms⟩ ⟨r', ms'⟩ hg hg' hne u hu hu'
  obtain ⟨-, rfl⟩ := (h.mem_iff r ms).1 hg
  obtain ⟨-, rfl⟩ := (h.mem_iff r' ms').1 hg'
  obtain ⟨i, n, hi, hid, rfl⟩ := mem_members.1 (mem_sorted.1 hu)
  obtain ⟨j, m, hj, hid', rfl⟩ := mem_members.1 (mem_sorted.1 hu')
  exact hne (congrArg root (index_unique hd hi hj (hid.trans hid'.symm)))

/-- **The groups are a partition of the ids.** -/
theorem Grouped.flatten_perm (hd : (nodes.map Node.id).Nodup)
    (h : Grouped root nodes.zipIdx groups) :
    (sortedGroups groups).flatten.Perm (nodes.map Node.id) := by
  have hnodup : (sortedGroups groups).flatten.Nodup := by
    refine List.nodup_flatten.2 ⟨fun c hc => ?_, h.disjoint hd⟩
    obtain ⟨r, -, rfl⟩ := h.mem_sortedGroups.1 hc
    exact (List.perm_insertionSort (· ≤ ·) _).nodup_iff.2 (members_nodup hd root r)
  refine (List.perm_ext_iff_of_nodup hnodup hd).2 fun u => ?_
  rw [List.mem_flatten]
  constructor
  · rintro ⟨c, hc, hu⟩
    obtain ⟨r, -, rfl⟩ := h.mem_sortedGroups.1 hc
    obtain ⟨i, n, hi, rfl, -⟩ := mem_members.1 (mem_sorted.1 hu)
    exact List.mem_map_of_mem (List.mem_of_getElem? hi)
  · intro hu
    obtain ⟨n, hn, rfl⟩ := List.mem_map.1 hu
    obtain ⟨i, hi⟩ := List.mem_iff_getElem?.1 hn
    obtain ⟨c, hc, hiff⟩ := h.mem_component hi
    exact ⟨c, hc, (hiff n.id).2 ⟨i, n, hi, rfl, rfl⟩⟩

/-- **The components are the reachability classes**: they partition the ids, two nodes share one
exactly when they are connected, and they come sorted, the larger ones first. -/
theorem components_classes (nodes : List Node) (hd : (nodes.map Node.id).Nodup)
    (edges : List (Edge F)) : ∃ components, connectedComponents nodes edges = some components ∧
      components.flatten.Perm (nodes.map Node.id) ∧
      (∀ c ∈ components, c ≠ [] ∧ c.Pairwise (· < ·)) ∧
      (∀ u ∈ nodes.map Node.id, ∀ v ∈ nodes.map Node.id,
        (∃ c ∈ components, u ∈ c ∧ v ∈ c) ↔ (linkGraph nodes edges).Reachable u v) ∧
      components.Pairwise fun a b => b.length < a.length ∨ a.length = b.length ∧ a < b := by
  obtain ⟨parent, root, depth, hunion, hlen, hforest, hroot⟩ := unionEdges_end hd edges
  obtain ⟨parent', groups, hgroup, hg⟩ := groupByRoot_end hforest hlen
  have hperm := List.perm_insertionSort componentLe (sortedGroups groups)
  have hflat := hperm.flatten.trans (hg.flatten_perm hd)
  have hcomponent : ∀ c ∈ (sortedGroups groups).insertionSort componentLe, c ≠ [] ∧
      c.Pairwise (· < ·) := by
    intro c hc
    obtain ⟨r, hne, rfl⟩ := hg.mem_sortedGroups.1 (hperm.mem_iff.1 hc)
    refine ⟨fun heq => hne ?_, ?_⟩
    · exact (heq ▸ List.perm_insertionSort (· ≤ ·) _ : [].Perm _).symm.eq_nil
    · have hnodup := (List.perm_insertionSort (· ≤ ·) (members root r nodes.zipIdx)).nodup_iff.2
        (members_nodup hd root r)
      exact (List.pairwise_insertionSort (· ≤ ·) _).imp₂ (fun a b hle hne => lt_of_le_of_ne hle hne)
        hnodup
  refine ⟨_, ?_, hflat, hcomponent, fun u hu v hv => ⟨?_, fun hreach => ?_⟩, ?_⟩
  · rw [connectedComponents, hunion]
    dsimp only [Option.bind_eq_bind, Option.bind_some]
    rw [hgroup]
    rfl
  · rintro ⟨c, hc, hu, hv⟩
    obtain ⟨r, -, rfl⟩ := hg.mem_sortedGroups.1 (hperm.mem_iff.1 hc)
    obtain ⟨i, n, hi, rfl, rfl⟩ := mem_members.1 (mem_sorted.1 hu)
    obtain ⟨j, m, hj, rfl, hij⟩ := mem_members.1 (mem_sorted.1 hv)
    exact (hroot i j n m hi hj).1 hij.symm
  · obtain ⟨n, hn, rfl⟩ := List.mem_map.1 hu
    obtain ⟨m, hm, rfl⟩ := List.mem_map.1 hv
    obtain ⟨i, hi⟩ := List.mem_iff_getElem?.1 hn
    obtain ⟨j, hj⟩ := List.mem_iff_getElem?.1 hm
    obtain ⟨c, hc, hiff⟩ := hg.mem_component hi
    refine ⟨c, hperm.mem_iff.2 hc, (hiff _).2 ⟨i, n, hi, rfl, rfl⟩, (hiff _).2 ⟨j, m, hj, rfl, ?_⟩⟩
    exact ((hroot i j n m hi hj).2 hreach).symm
  · -- components are apart, so no two of them are equal
    have hdisjoint : ((sortedGroups groups).insertionSort componentLe).Pairwise List.Disjoint :=
      (hperm.pairwise_iff fun h => h.symm).2 (hg.disjoint hd)
    have hle := @List.pairwise_insertionSort _ componentLe _ ⟨componentLe_total⟩
      ⟨componentLe_trans⟩ (sortedGroups groups)
    refine List.Pairwise.imp_of_mem ?_ (hle.and hdisjoint)
    rintro a b ha - ⟨hab, hdis⟩
    refine hab.imp id fun ⟨hlen, hle⟩ => ⟨hlen, lt_of_le_of_ne hle ?_⟩
    rintro rfl
    obtain ⟨u, hu⟩ := List.exists_mem_of_ne_nil a (hcomponent a ha).1
    exact hdis hu hu

/-- Three firms, two of them joined by an edge in each direction, and a dangling edge. -/
def threeFirms : List Node :=
  ["c", "a", "b"].map fun id => { id, kind := .company, name := id }

def threeFirmEdges : List (Edge ℚ) :=
  [("a", "c"), ("c", "a"), ("b", "b"), ("b", "d")].map fun (src, dst) =>
    { src, dst, relation := .supplies, weight := 1, sourceName := "annual report", confidence := 1 }

theorem components_threeFirms : ∃ components,
    connectedComponents threeFirms threeFirmEdges = some components ∧
      components.flatten.Perm ["c", "a", "b"] ∧
      ((∃ c ∈ components, "a" ∈ c ∧ "c" ∈ c) ↔
        (linkGraph threeFirms threeFirmEdges).Reachable "a" "c") := by
  obtain ⟨components, hrun, hperm, -, hshare, -⟩ :=
    components_classes threeFirms (by decide) threeFirmEdges
  exact ⟨components, hrun, hperm, hshare "a" (by decide) "c" (by decide)⟩

example : connectedComponents threeFirms threeFirmEdges = some [["a", "c"], ["b"]] := by
  decide

end Astock
