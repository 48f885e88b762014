import Astock.Lib.Search
import Astock.Proof.Components
import Astock.Spec.GraphAnalysis
import Mathlib.Combinatorics.SimpleGraph.Metric

/-!
# What traversal finds

Both searches are breadth-first searches of `Lib/Search`: `paths_from` over chains, by the id of
their last node, `subgraph` over ids with a depth.

* `Joined`: what a chain is, and `walk_chain`: the walks of both searches stay within the distance.
* `exists_walk`: every walk of the graph within the hop limit is one of the search.
* `traversal_distances`: **the chains are those of the nodes within the hop limit, each as long as
  the distance, and the neighbourhood is the start with these nodes and the edges between them**.
-/

namespace Astock

variable {F : Type} {nodes : List Node} {edges : List (Edge F)}

/-- An edge in one of its two directions. -/
def Edge.Joins (e : Edge F) (u v : String) : Prop := e.src = u ∧ e.dst = v ∨ e.dst = u ∧ e.src = v

/-! ## Links -/

theorem find_isNone_iff {id : String} :
    (Table.find Node.id id nodes).isNone ↔ id ∉ nodes.map Node.id := by
  rw [Option.isNone_iff_eq_none, Table.find_eq_none]
  simp

/-- A link is an edge with both ends listed. -/
theorem mem_links {id : String} {e : Edge F} {v : String} :
    (e, v) ∈ (buildAdjacency nodes edges).links id ↔ e ∈ edges ∧ e.Joins id v ∧
      id ∈ nodes.map Node.id ∧ v ∈ nodes.map Node.id := by
  simp only [buildAdjacency, List.mem_flatMap]
  constructor
  · rintro ⟨e', he', hmem⟩
    by_cases hdangling : (Table.find Node.id e'.src nodes).isNone ∨
        (Table.find Node.id e'.dst nodes).isNone
    · rw [if_pos hdangling] at hmem
      exact absurd hmem List.not_mem_nil
    · rw [if_neg hdangling] at hmem
      rw [find_isNone_iff, find_isNone_iff, not_or, not_not, not_not] at hdangling
      rcases List.mem_append.1 hmem with hmem | hmem
      · obtain ⟨hsrc, heq⟩ := List.mem_ite_nil_right.1 hmem
        obtain ⟨rfl, rfl⟩ := Prod.mk.inj (List.mem_singleton.1 heq)
        exact ⟨he', .inl ⟨hsrc, rfl⟩, hsrc ▸ hdangling.1, hdangling.2⟩
      · obtain ⟨hdst, heq⟩ := List.mem_ite_nil_right.1 hmem
        obtain ⟨rfl, rfl⟩ := Prod.mk.inj (List.mem_singleton.1 heq)
        exact ⟨he', .inr ⟨hdst, rfl⟩, hdst ▸ hdangling.2, hdangling.1⟩
  · rintro ⟨he, hjoins, hid, hv⟩
    refine ⟨e, he, ?_⟩
    rcases hjoins with ⟨rfl, rfl⟩ | ⟨rfl, rfl⟩
    · rw [if_neg (by rw [find_isNone_iff, find_isNone_iff]; tauto)]
      simp
    · rw [if_neg (by rw [find_isNone_iff, find_isNone_iff]; tauto)]
      simp

theorem adj_iff {u v : String} : (linkGraph nodes edges).Adj u v ↔
    u ≠ v ∧ ∃ e, (e, v) ∈ (buildAdjacency nodes edges).links u := by
  rw [linkGraph, SimpleGraph.fromRel_adj]
  refine and_congr_right fun _ => ?_
  simp only [mem_links]
  constructor
  · rintro (⟨hu, hv, e, he, hsrc, hdst⟩ | ⟨hv, hu, e, he, hsrc, hdst⟩)
    · exact ⟨e, he, .inl ⟨hsrc, hdst⟩, hu, hv⟩
    · exact ⟨e, he, .inr ⟨hdst, hsrc⟩, hu, hv⟩
  · rintro ⟨e, he, ⟨hsrc, hdst⟩ | ⟨hdst, hsrc⟩, hu, hv⟩
    · exact .inl ⟨hu, hv, e, he, hsrc, hdst⟩
    · exact .inr ⟨hv, hu, e, he, hsrc, hdst⟩

/-- A link adds at most one to the distance. -/
theorem edist_link {s u v : String} {e : Edge F} {k : ℕ}
    (h : (linkGraph nodes edges).edist s u ≤ k)
    (he : (e, v) ∈ (buildAdjacency nodes edges).links u) :
    (linkGraph nodes edges).edist s v ≤ (k + 1 : ℕ) := by
  have hone : (linkGraph nodes edges).edist u v ≤ 1 := by
    rw [SimpleGraph.edist_le_one_iff_adj_or_eq]
    by_cases huv : u = v
    · exact .inr huv
    · exact .inl (adj_iff.2 ⟨huv, e, he⟩)
  calc (linkGraph nodes edges).edist s v
      ≤ (linkGraph nodes edges).edist s u + (linkGraph nodes edges).edist u v :=
        SimpleGraph.edist_triangle
    _ ≤ k + 1 := add_le_add h hone
    _ = (k + 1 : ℕ) := by norm_cast

theorem adjacencyNode_id (id : String) :
    (adjacencyNode (buildAdjacency nodes edges) id).id = id := by
  unfold adjacencyNode
  cases hfind : (buildAdjacency nodes edges).nodes id with
  | none => rfl
  | some n => exact Table.key_of_find hfind

theorem adjacencyNode_mem {id : String} (h : id ∈ nodes.map Node.id) :
    adjacencyNode (buildAdjacency nodes edges) id ∈ nodes := by
  unfold adjacencyNode
  cases hfind : (buildAdjacency nodes edges).nodes id with
  | none =>
    obtain ⟨n, hn, rfl⟩ := List.mem_map.1 h
    exact absurd rfl ((Table.find_eq_none Node.id).1 hfind n hn)
  | some n => exact Table.mem_of_find hfind

/-! ## The moves of a search over links

Items are walked by `moves`, which follows the links of `key` while `depth` is below the limit. -/

section Moves

variable {ι : Type}

/-- A search that follows the links of the node of an item within the hop limit. -/
structure FollowsLinks (nodes : List Node) (edges : List (Edge F)) (maxHops : ℕ)
    (key : ι → String) (depth : ι → ℕ) (moves : ι → List ι) : Prop where
  sound : ∀ x, ∀ y ∈ moves x, depth x < maxHops ∧ depth y = depth x + 1 ∧
    ∃ e, (e, key y) ∈ (buildAdjacency nodes edges).links (key x)
  complete : ∀ x e v, depth x < maxHops → (e, v) ∈ (buildAdjacency nodes edges).links (key x) →
    ∃ y ∈ moves x, key y = v

variable {maxHops : ℕ} {key : ι → String} {depth : ι → ℕ} {moves : ι → List ι} {x₀ : ι}

theorem FollowsLinks.walk_edist (h : FollowsLinks nodes edges maxHops key depth moves)
    (hx₀ : depth x₀ = 0) {x : ι} (hx : Search.Walk moves x₀ x) :
    (linkGraph nodes edges).edist (key x₀) (key x) ≤ depth x ∧ depth x ≤ maxHops ∧
      (key x = key x₀ ∨ key x ∈ nodes.map Node.id) := by
  induction hx with
  | refl => simp [hx₀]
  | tail _ hmove ih =>
    obtain ⟨hlt, hdepth, e, he⟩ := h.sound _ _ hmove
    rw [hdepth]
    exact ⟨edist_link ih.1 he, hlt, .inr (mem_links.1 he).2.2.2⟩

/-- Every walk of the graph within the limit is a walk of the search. -/
theorem FollowsLinks.exists_walk (h : FollowsLinks nodes edges maxHops key depth moves)
    (hx₀ : depth x₀ = 0) : ∀ (k : ℕ) (v : String), k ≤ maxHops →
      (∃ p : (linkGraph nodes edges).Walk v (key x₀), p.length = k) →
      ∃ x, Search.Walk moves x₀ x ∧ key x = v ∧ depth x = k := by
  intro k
  induction k with
  | zero =>
    rintro v - ⟨p, hp⟩
    exact ⟨x₀, .refl, (SimpleGraph.Walk.eq_of_length_eq_zero hp).symm, hx₀⟩
  | succ k ih =>
    rintro v hk ⟨p, hp⟩
    cases p with
    | nil => simp at hp
    | @cons _ u _ hadj p =>
      rw [SimpleGraph.Walk.length_cons] at hp
      obtain ⟨x, hx, rfl, hdepth⟩ := ih u (by omega) ⟨p, by omega⟩
      obtain ⟨-, e, he⟩ := adj_iff.1 hadj.symm
      obtain ⟨y, hy, rfl⟩ := h.complete x e v (by omega) he
      exact ⟨y, hx.tail hy, rfl, by rw [(h.sound x y hy).2.1, hdepth]⟩

variable {t : Search.State ι}

/-- **What such a search has seen at its end**: an item for each node within the hop limit, at its
distance. -/
theorem FollowsLinks.seen_iff (h : FollowsLinks nodes edges maxHops key depth moves)
    (hx₀ : depth x₀ = 0) (hinv : Search.Inv key moves depth x₀ t) (hend : t.queue = []) :
    (∀ x ∈ t.seen, (linkGraph nodes edges).edist (key x₀) (key x) = depth x) ∧
      ∀ v, (∃ x ∈ t.seen, key x = v) ↔
        (linkGraph nodes edges).edist (key x₀) v ≤ maxHops := by
  have hseen : t.seen = t.done := by rw [Search.State.seen, hend, List.append_nil]
  have hfound : ∀ y, Search.Walk moves x₀ y → ∃ x ∈ t.done, key x = key y ∧
      ∀ z, Search.Walk moves x₀ z → key z = key y → depth x ≤ depth z := by
    intro y hy
    have hmoves : ∀ x y, (key x = key y ∧ depth x ≤ depth y) → ∀ y' ∈ moves y,
        ∃ x' ∈ moves x, key x' = key y' := by
      intro x y hxy y' hy'
      obtain ⟨hlt, -, e, he⟩ := h.sound y y' hy'
      rw [← hxy.1] at he
      exact h.complete x e (key y') (by omega) he
    obtain ⟨x, hx, hkey, hleast, -⟩ := Search.complete (fun x y hxy => (h.sound x y hxy).2.1) hmoves
      (fun x y _ hwy hkey hleast => ⟨hkey, hleast y hwy hkey.symm⟩) hinv hend hy
    exact ⟨x, hx, hkey, hleast⟩
  have hwithin : ∀ v, (linkGraph nodes edges).edist (key x₀) v ≤ maxHops →
      ∃ y, Search.Walk moves x₀ y ∧ key y = v ∧
        (depth y : ℕ∞) = (linkGraph nodes edges).edist (key x₀) v := by
    intro v hv
    obtain ⟨p, hp⟩ := SimpleGraph.exists_walk_of_edist_ne_top
      (ne_top_of_le_ne_top (ENat.coe_ne_top maxHops) hv)
    have hle : p.length ≤ maxHops := by
      rw [← hp] at hv
      exact_mod_cast hv
    obtain ⟨y, hy, hkey, hdepth⟩ := h.exists_walk hx₀ p.length v hle
      ⟨p.reverse, SimpleGraph.Walk.length_reverse p⟩
    exact ⟨y, hy, hkey, by rw [hdepth, hp]⟩
  constructor
  · intro x hx
    obtain ⟨hle, hmax, -⟩ := h.walk_edist hx₀ (hinv.walks x hx)
    refine le_antisymm hle ?_
    obtain ⟨y, hy, hkey, hdepth⟩ := hwithin (key x) (hle.trans (by exact_mod_cast hmax))
    obtain ⟨x', hx', hkey', hleast⟩ := hfound y hy
    -- the item of the node is the one of least depth
    obtain rfl : x' = x := List.inj_on_of_nodup_map (hseen ▸ hinv.nodup) hx' (hseen ▸ hx)
      (hkey'.trans hkey)
    rw [← hdepth]
    exact_mod_cast hleast y hy rfl
  · intro v
    constructor
    · rintro ⟨x, hx, rfl⟩
      obtain ⟨hle, hmax, -⟩ := h.walk_edist hx₀ (hinv.walks x hx)
      exact hle.trans (by exact_mod_cast hmax)
    · intro hv
      obtain ⟨y, hy, rfl, -⟩ := hwithin v hv
      obtain ⟨x, hx, hkey, -⟩ := hfound y hy
      exact ⟨x, hseen ▸ hx, hkey⟩

/-- The search ends after as many steps as there are nodes. -/
theorem FollowsLinks.run_ends (h : FollowsLinks nodes edges maxHops key depth moves)
    (hx₀ : depth x₀ = 0) (hlisted : key x₀ ∈ nodes.map Node.id) :
    (Search.run key moves nodes.length (Search.start x₀)).queue = [] := by
  have hkeys : ∀ x, Search.Walk moves x₀ x → key x ∈ nodes.map Node.id := by
    intro x hx
    rcases (h.walk_edist hx₀ hx).2.2 with heq | hmem
    · exact heq ▸ hlisted
    · exact hmem
  have hends := Search.run_ends (fun x y hxy => (h.sound x y hxy).2.1) hkeys
  rwa [List.length_map] at hends

end Moves

/-! ## The search over chains -/

section Chains

variable {start : Node} {maxHops : ℕ}

def PathChain.key (chain : PathChain F) : String :=
  ((chain.nodes.getLast?).map Node.id).getD ""

def PathChain.extend (adjacency : Adjacency F) (chain : PathChain F) (link : Edge F × String) :
    PathChain F where
  nodes := chain.nodes ++ [adjacencyNode adjacency link.2]
  edges := chain.edges ++ [link.1]

def chainMoves (adjacency : Adjacency F) (maxHops : ℕ) (chain : PathChain F) : List (PathChain F) :=
  if maxHops ≤ chain.edges.length then []
  else (adjacency.links chain.key).map (chain.extend adjacency)

/-- The chain of the start alone. -/
def startChain (start : Node) : PathChain F where
  nodes := [start]
  edges := []

theorem extend_key (chain : PathChain F) (link : Edge F × String) :
    (chain.extend (buildAdjacency nodes edges) link).key = link.2 := by
  simp [PathChain.key, PathChain.extend, adjacencyNode_id]

theorem chains_follow (nodes : List Node) (edges : List (Edge F)) (maxHops : ℕ) :
    FollowsLinks nodes edges maxHops PathChain.key (fun chain => chain.edges.length)
      (chainMoves (buildAdjacency nodes edges) maxHops) where
  sound := by
    intro x y hy
    unfold chainMoves at hy
    by_cases hmax : maxHops ≤ x.edges.length
    · rw [if_pos hmax] at hy
      exact absurd hy List.not_mem_nil
    · rw [if_neg hmax] at hy
      obtain ⟨link, hlink, rfl⟩ := List.mem_map.1 hy
      exact ⟨not_le.1 hmax, by simp [PathChain.extend], link.1, by rwa [extend_key]⟩
  complete := by
    intro x e v hlt he
    refine ⟨x.extend (buildAdjacency nodes edges) (e, v), ?_, extend_key x (e, v)⟩
    rw [chainMoves, if_neg (not_le.2 hlt)]
    exact List.mem_map_of_mem he

/-- A chain of nodes of the graph, each joined to the next one by the edge between them. -/
structure PathChain.Joined (nodes : List Node) (edges : List (Edge F)) (start : Node)
    (chain : PathChain F) : Prop where
  first : chain.nodes.head? = some start
  length : chain.nodes.length = chain.edges.length + 1
  listed : ∀ n ∈ chain.nodes, n ∈ nodes
  joins : ∀ i e, chain.edges[i]? = some e → ∃ u v, chain.nodes[i]? = some u ∧
    chain.nodes[i + 1]? = some v ∧ e ∈ edges ∧ e.Joins u.id v.id

theorem PathChain.Joined.last {chain : PathChain F} (h : chain.Joined nodes edges start) :
    ∃ n ∈ nodes, chain.nodes.getLast? = some n ∧ chain.nodes[chain.edges.length]? = some n ∧
      chain.key = n.id := by
  have hlen := h.length
  have hlast : chain.nodes.getLast? = chain.nodes[chain.edges.length]? := by
    rw [List.getLast?_eq_getElem?, hlen]
    rfl
  have hlt : chain.edges.length < chain.nodes.length := by omega
  obtain ⟨n, hn⟩ := Checked.getElem?_defined hlt
  refine ⟨n, h.listed n (List.mem_of_getElem? hn), hlast.trans hn, hn, ?_⟩
  rw [PathChain.key, hlast, hn]
  rfl

theorem PathChain.Joined.extend {chain : PathChain F} (h : chain.Joined nodes edges start)
    {link : Edge F × String} (hlink : link ∈ (buildAdjacency nodes edges).links chain.key) :
    (chain.extend (buildAdjacency nodes edges) link).Joined nodes edges start := by
  obtain ⟨he, hjoins, -, hlisted⟩ := mem_links.1 hlink
  obtain ⟨n, -, -, hn, hkey⟩ := h.last
  have hlen := h.length
  constructor
  · rw [PathChain.extend, List.head?_append, h.first]
    rfl
  · simp [PathChain.extend, hlen]
  · intro m hm
    rcases List.mem_append.1 hm with hm | hm
    · exact h.listed m hm
    · rw [List.mem_singleton.1 hm]
      exact adjacencyNode_mem hlisted
  · intro i e hi
    simp only [PathChain.extend] at hi ⊢
    by_cases hlt : i < chain.edges.length
    · rw [List.getElem?_append_left hlt] at hi
      obtain ⟨u, v, hu, hv, hmem, huv⟩ := h.joins i e hi
      refine ⟨u, v, ?_, ?_, hmem, huv⟩
      · rw [List.getElem?_append_left (by omega), hu]
      · rw [List.getElem?_append_left (by omega), hv]
    · have hle : i < (chain.edges ++ [link.1]).length := (List.getElem?_eq_some_iff.1 hi).1
      rw [List.length_append, List.length_singleton] at hle
      obtain rfl : i = chain.edges.length := by omega
      rw [List.getElem?_concat_length] at hi
      obtain rfl := Option.some.inj hi
      refine ⟨n, adjacencyNode (buildAdjacency nodes edges) link.2, ?_, ?_, he, ?_⟩
      · rw [List.getElem?_append_left (by omega), hn]
      · rw [← hlen, List.getElem?_concat_length]
      · rwa [adjacencyNode_id, ← hkey]

theorem joined_of_walk (hstart : start ∈ nodes) {chain : PathChain F}
    (h : Search.Walk (chainMoves (buildAdjacency nodes edges) maxHops) (startChain start) chain) :
    chain.Joined nodes edges start := by
  induction h with
  | refl => exact ⟨rfl, rfl, by simp [startChain, hstart], by simp [startChain]⟩
  | @tail x y _ hmove ih =>
    unfold chainMoves at hmove
    by_cases hmax : maxHops ≤ x.edges.length
    · rw [if_pos hmax] at hmove
      exact absurd hmove List.not_mem_nil
    · rw [if_neg hmax] at hmove
      obtain ⟨link, hlink, rfl⟩ := List.mem_map.1 hmove
      exact ih.extend hlink

/-- The state of the code's search is that of the search over chains. -/
structure PathSearch.Follows (s : PathSearch F) (t : Search.State (PathChain F)) : Prop where
  queue : s.queue = t.queue
  visited : s.visited = t.seen.map PathChain.key
  out : s.out = t.seen.tail
  nonempty : t.seen ≠ []

theorem PathSearch.Follows.visit {s : PathSearch F} {t : Search.State (PathChain F)}
    (h : s.Follows t) (chain : PathChain F) (link : Edge F × String) :
    (s.visit (buildAdjacency nodes edges) chain link).Follows
      (Search.push PathChain.key t (chain.extend (buildAdjacency nodes edges) link)) := by
  unfold PathSearch.visit Search.push
  dsimp only
  rw [extend_key, ← h.visited]
  by_cases hseen : link.2 ∈ s.visited
  · rw [if_pos hseen, if_pos hseen]
    exact h
  · rw [if_neg hseen, if_neg hseen]
    have hnew : Search.State.seen { t with queue := t.queue ++ [chain.extend (buildAdjacency nodes edges) link] } =
        t.seen ++ [chain.extend (buildAdjacency nodes edges) link] := by
      simp [Search.State.seen]
    constructor
    · simp only [h.queue, PathChain.extend]
    · rw [hnew, List.map_append, ← h.visited, List.map_singleton, extend_key]
    · rw [hnew, List.tail_append_of_ne_nil h.nonempty, ← h.out]
      rfl
    · rw [hnew]
      simp

theorem PathSearch.Follows.visits {s : PathSearch F} {t : Search.State (PathChain F)}
    (h : s.Follows t) (chain : PathChain F) (links : List (Edge F × String)) :
    (links.foldl (PathSearch.visit (buildAdjacency nodes edges) chain) s).Follows
      ((links.map (chain.extend (buildAdjacency nodes edges))).foldl
        (Search.push PathChain.key) t) := by
  induction links generalizing s t with
  | nil => exact h
  | cons link links ih => exact ih (h.visit chain link)

theorem PathSearch.Follows.turn {s : PathSearch F} {t : Search.State (PathChain F)}
    (h : s.Follows t) {chain : PathChain F} {rest : List (PathChain F)}
    (hq : t.queue = chain :: rest) (hchain : chain.nodes ≠ []) :
    ∃ s', s.turn (buildAdjacency nodes edges) maxHops = .again s' ∧ s'.Follows
      (Search.next PathChain.key (chainMoves (buildAdjacency nodes edges) maxHops) t) := by
  have hseen : Search.State.seen { done := t.done ++ [chain], queue := rest } = t.seen := by
    simp [Search.State.seen, hq]
  have hpop : ({ s with queue := rest } : PathSearch F).Follows
      { done := t.done ++ [chain], queue := rest } :=
    ⟨rfl, by rw [hseen]; exact h.visited, by rw [hseen]; exact h.out, by rw [hseen]; exact h.nonempty⟩
  unfold PathSearch.turn Search.next chainMoves
  rw [h.queue, hq]
  dsimp only
  by_cases hmax : maxHops ≤ chain.edges.length
  · rw [if_pos hmax, if_pos hmax]
    exact ⟨_, rfl, hpop⟩
  · rw [if_neg hmax, if_neg hmax]
    have hlast := List.getLast?_eq_some_getLast hchain
    have hkey : chain.key = (chain.nodes.getLast hchain).id := by
      rw [PathChain.key, hlast]
      rfl
    rw [hlast, hkey]
    exact ⟨_, rfl, hpop.visits chain _⟩

end Chains

/-! ## The search over depths -/

section Depths

variable {hops : ℕ}

def depthMoves (adjacency : Adjacency F) (hops : ℕ) (entry : String × ℕ) : List (String × ℕ) :=
  if hops ≤ entry.2 then []
  else ((adjacency.links entry.1).map Prod.snd).map fun id => (id, entry.2 + 1)

theorem depths_follow (nodes : List Node) (edges : List (Edge F)) (hops : ℕ) :
    FollowsLinks nodes edges hops Prod.fst Prod.snd
      (depthMoves (buildAdjacency nodes edges) hops) where
  sound := by
    intro x y hy
    unfold depthMoves at hy
    by_cases hmax : hops ≤ x.2
    · rw [if_pos hmax] at hy
      exact absurd hy List.not_mem_nil
    · rw [if_neg hmax] at hy
      obtain ⟨id, hid, rfl⟩ := List.mem_map.1 hy
      obtain ⟨link, hlink, rfl⟩ := List.mem_map.1 hid
      exact ⟨not_le.1 hmax, rfl, link.1, hlink⟩
  complete := by
    intro x e v hlt he
    refine ⟨(v, x.2 + 1), ?_, rfl⟩
    rw [depthMoves, if_neg (not_le.2 hlt)]
    exact List.mem_map_of_mem (List.mem_map_of_mem he)

/-- The state of the code's search is that of the search over depths. -/
structure DepthSearch.Follows (s : DepthSearch) (t : Search.State (String × ℕ)) : Prop where
  queue : s.queue = t.queue.map Prod.fst
  depth : s.depth = t.seen

theorem DepthSearch.Follows.visits {s : DepthSearch} {t : Search.State (String × ℕ)}
    (h : s.Follows t) (d : ℕ) (ids : List String) :
    (ids.foldl (DepthSearch.visit d) s).Follows
      ((ids.map fun id => (id, d + 1)).foldl (Search.push Prod.fst) t) := by
  induction ids generalizing s t with
  | nil => exact h
  | cons id ids ih =>
    refine ih ?_
    unfold DepthSearch.visit DepthSearch.contains Search.push
    rw [h.depth]
    by_cases hseen : id ∈ t.seen.map Prod.fst
    · rw [if_pos (by simpa using hseen), if_pos hseen]
      exact h
    · rw [if_neg (by simpa using hseen), if_neg hseen]
      exact ⟨by simp [h.queue], by simp [Search.State.seen]⟩

theorem DepthSearch.Follows.turn {s : DepthSearch} {t : Search.State (String × ℕ)}
    (h : s.Follows t) (hd : (t.seen.map Prod.fst).Nodup) {entry : String × ℕ}
    {rest : List (String × ℕ)} (hq : t.queue = entry :: rest) {adjacency : Adjacency F} :
    ∃ s', s.turn adjacency hops = .again s' ∧
      s'.Follows (Search.next Prod.fst (depthMoves adjacency hops) t) := by
  have hpop : ({ s with queue := rest.map Prod.fst } : DepthSearch).Follows
      { done := t.done ++ [entry], queue := rest } := by
    refine ⟨rfl, h.depth.trans ?_⟩
    simp [Search.State.seen, hq]
  have hmem : entry ∈ t.seen := List.mem_append_right _ (by rw [hq]; exact List.mem_cons_self)
  have hfind : Table.find Prod.fst entry.1 s.depth = some entry := by
    rw [h.depth]
    exact Table.find_of_mem hd hmem
  unfold DepthSearch.turn Search.next depthMoves
  rw [h.queue, hq, List.map_cons]
  dsimp only
  rw [hfind]
  dsimp only
  by_cases hmax : hops ≤ entry.2
  · rw [if_pos hmax, if_pos hmax]
    exact ⟨_, rfl, hpop⟩
  · rw [if_neg hmax, if_neg hmax]
    exact ⟨_, rfl, hpop.visits entry.2 _⟩

end Depths

/-! ## The results -/

variable {g : GraphStore F} {now : ℤ} {subject : String} {start : Node} {maxHops : ℕ}

theorem mem_allNodes {n : Node} : n ∈ g.allNodes ↔ n ∈ g.nodes :=
  (List.perm_insertionSort _ g.nodes).mem_iff

theorem length_allNodes (g : GraphStore F) : g.allNodes.length = g.nodes.length :=
  (List.perm_insertionSort _ g.nodes).length_eq

theorem findNode_mem (h : g.findNode subject = some start) : start ∈ g.allNodes := by
  unfold GraphStore.findNode at h
  rcases Option.or_eq_some_iff.1 h with h | ⟨-, h⟩
  · exact mem_allNodes.2 (Table.mem_of_find h)
  · exact List.mem_of_find?_eq_some h

/-- The undirected graph of the store at `now`. -/
abbrev GraphStore.linkGraph (g : GraphStore F) (now : ℤ) : SimpleGraph String :=
  Astock.linkGraph g.allNodes (g.allEdges now)

/-- **The paths are the chains seen by the search**, but that of the start. -/
theorem pathsFrom_end (hstart : g.findNode subject = some start) (now : ℤ) (maxHops : ℕ) :
    ∃ chains, pathsFrom g now subject maxHops = some (.ok chains) ∧
      ((startChain start :: chains).map PathChain.key).Nodup ∧
      (∀ chain ∈ chains, chain.Joined g.allNodes (g.allEdges now) start) ∧
      (∀ chain ∈ chains,
        (g.linkGraph now).edist start.id chain.key = chain.edges.length) ∧
      ∀ v, (∃ chain ∈ startChain start :: chains, chain.key = v) ↔
        (g.linkGraph now).edist start.id v ≤ maxHops := by
  have hmem := findNode_mem hstart
  have hlisted : (startChain (F := F) start).key ∈ g.allNodes.map Node.id := List.mem_map_of_mem hmem
  have hfollow : FollowsLinks g.allNodes (g.allEdges now) maxHops PathChain.key
      (fun chain => chain.edges.length) (chainMoves (g.adjacency now) maxHops) :=
    chains_follow g.allNodes (g.allEdges now) maxHops
  have hdepth : ∀ x, ∀ y ∈ chainMoves (g.adjacency now) maxHops x,
      y.edges.length = x.edges.length + 1 := fun x y hxy => (hfollow.sound x y hxy).2.1
  let I : PathSearch F → Search.State (PathChain F) → Prop := fun s t => s.Follows t ∧
    Search.Inv PathChain.key (chainMoves (g.adjacency now) maxHops)
      (fun chain => chain.edges.length) (startChain start) t
  have hjoined : ∀ s t, I s t → ∀ chain ∈ t.seen, chain.Joined g.allNodes (g.allEdges now) start :=
    fun s t h chain hc => joined_of_walk hmem (h.2.walks chain hc)
  obtain ⟨found, hfound, hsim, hinv⟩ := Search.run_refines (R := I)
    (fun s t h hq => show s.turn (g.adjacency now) maxHops = .done by
      rw [PathSearch.turn, h.1.queue, hq])
    (fun s t chain rest h hq => by
      have hchain := hjoined s t h chain (List.mem_append_right _ (by rw [hq]; exact List.mem_cons_self))
      have hne : chain.nodes ≠ [] := by
        intro hnil
        have hlen := hchain.length
        rw [hnil] at hlen
        simp at hlen
      obtain ⟨s', hs', hsim⟩ := h.1.turn hq hne
      exact ⟨s', hs', hsim, h.2.next hdepth⟩)
    g.allNodes.length { visited := [start.id], queue := [startChain start], out := [] }
    (Search.start (startChain start)) ⟨⟨rfl, rfl, rfl, by simp [Search.start, Search.State.seen]⟩,
      Search.Inv.start _⟩ (hfollow.run_ends rfl hlisted)
  rw [length_allNodes] at hfound
  -- the first item seen is the chain of the start
  have hseen : (Search.run PathChain.key (chainMoves (g.adjacency now) maxHops) g.allNodes.length
      (Search.start (startChain start))).seen = startChain start :: found.out := by
    rw [hsim.out]
    exact (List.cons_head?_tail hinv.first).symm
  obtain ⟨hdistance, hall⟩ := hfollow.seen_iff rfl hinv (hfollow.run_ends rfl hlisted)
  have hnodup := hinv.nodup
  have hchains := hjoined _ _ ⟨hsim, hinv⟩
  rw [hseen] at hdistance hall hnodup hchains
  refine ⟨found.out, ?_, hnodup, fun chain hc => hchains chain (List.mem_cons_of_mem _ hc),
    fun chain hc => hdistance chain (List.mem_cons_of_mem _ hc), hall⟩
  rw [pathsFrom, hstart]
  dsimp only
  rw [startChain] at hfound
  rw [hfound]
  rfl

/-- **The neighbourhood is what the search over depths has seen.** -/
theorem subgraph_end (hstart : g.findNode subject = some start) (now : ℤ) (hops : ℕ) :
    ∃ sub, subgraph g now subject hops = some (.ok sub) ∧ (sub.nodes.map Node.id).Nodup ∧
      sub.nodes.Pairwise (fun a b => a.id ≤ b.id) ∧
      (∀ n, n ∈ sub.nodes ↔ ∃ v, (g.linkGraph now).edist start.id v ≤ hops ∧
        n = adjacencyNode (g.adjacency now) v) ∧
      sub.edges = (g.allEdges now).filter fun e =>
        e.src ∈ sub.nodes.map Node.id ∧ e.dst ∈ sub.nodes.map Node.id := by
  have hmem := findNode_mem hstart
  have hlisted : start.id ∈ g.allNodes.map Node.id := List.mem_map_of_mem hmem
  have hfollow : FollowsLinks g.allNodes (g.allEdges now) hops Prod.fst Prod.snd
      (depthMoves (g.adjacency now) hops) := depths_follow g.allNodes (g.allEdges now) hops
  have hdepth : ∀ x, ∀ y ∈ depthMoves (g.adjacency now) hops x, y.2 = x.2 + 1 :=
    fun x y hxy => (hfollow.sound x y hxy).2.1
  let I : DepthSearch → Search.State (String × ℕ) → Prop := fun s t => s.Follows t ∧
    Search.Inv Prod.fst (depthMoves (g.adjacency now) hops) Prod.snd (start.id, 0) t
  obtain ⟨found, hfound, hsim, hinv⟩ := Search.run_refines (R := I)
    (fun s t h hq => show s.turn (g.adjacency now) hops = .done by
      rw [DepthSearch.turn, h.1.queue, hq, List.map_nil])
    (fun s t entry rest h hq => by
      obtain ⟨s', hs', hsim⟩ := h.1.turn h.2.nodup hq
      exact ⟨s', hs', hsim, h.2.next hdepth⟩)
    g.allNodes.length { depth := [(start.id, 0)], queue := [start.id] }
    (Search.start (start.id, 0)) ⟨⟨rfl, rfl⟩, Search.Inv.start _⟩ (hfollow.run_ends rfl hlisted)
  rw [length_allNodes] at hfound
  obtain ⟨-, hall⟩ := hfollow.seen_iff rfl hinv (hfollow.run_ends rfl hlisted)
  have hids : ∀ v, v ∈ found.depth.map Prod.fst ↔ (g.linkGraph now).edist start.id v ≤ hops := by
    intro v
    rw [← hall v, hsim.depth, List.mem_map]
  let around := found.depth.map fun entry => adjacencyNode (g.adjacency now) entry.1
  have hperm : (around.insertionSort fun a b => a.id ≤ b.id).Perm around :=
    List.perm_insertionSort _ _
  have hmap : around.map Node.id = found.depth.map Prod.fst := by
    rw [List.map_map]
    exact List.map_congr_left fun entry _ => adjacencyNode_id entry.1
  have hidperm := hperm.map Node.id
  rw [hmap] at hidperm
  refine ⟨{
      nodes := around.insertionSort fun a b => a.id ≤ b.id
      edges := (g.allEdges now).filter fun e => found.contains e.src ∧ found.contains e.dst },
    ?_, ?_, ?_, fun n => ?_, ?_⟩
  · rw [subgraph, hstart]
    dsimp only
    rw [hfound]
    rfl
  · rw [hidperm.nodup_iff, hsim.depth]
    exact hinv.nodup
  · exact List.pairwise_insertionSort _ _
  · rw [hperm.mem_iff, List.mem_map]
    constructor
    · rintro ⟨entry, hentry, rfl⟩
      exact ⟨entry.1, (hids _).1 (List.mem_map_of_mem hentry), rfl⟩
    · rintro ⟨v, hv, rfl⟩
      obtain ⟨entry, hentry, rfl⟩ := List.mem_map.1 ((hids v).2 hv)
      exact ⟨entry, hentry, rfl⟩
  · refine List.filter_congr fun e _ => ?_
    simp only [hidperm.mem_iff, DepthSearch.contains, decide_eq_true_eq]

/-- **The paths are one chain for each node within the hop limit, as long as the distance, and the
neighbourhood is the start with these nodes and the edges between them.** -/
theorem traversal_distances (g : GraphStore F) (hd : (g.nodes.map Node.id).Nodup) (now : ℤ)
    (subject : String) (start : Node) (hstart : g.findNode subject = some start) (maxHops : ℕ) :
    ∃ chains sub, pathsFrom g now subject maxHops = some (.ok chains) ∧
      subgraph g now subject maxHops = some (.ok sub) ∧
      (chains.map fun chain => chain.nodes.getLast?).Nodup ∧
      (∀ n, (∃ chain ∈ chains, chain.nodes.getLast? = some n) ↔
        n ∈ g.nodes ∧ 1 ≤ (g.linkGraph now).edist start.id n.id ∧
          (g.linkGraph now).edist start.id n.id ≤ maxHops) ∧
      (∀ chain ∈ chains, chain.Joined g.allNodes (g.allEdges now) start ∧
        ∀ n ∈ chain.nodes.getLast?, (g.linkGraph now).edist start.id n.id = chain.edges.length) ∧
      (sub.nodes.map Node.id).Nodup ∧ sub.nodes.Pairwise (fun a b => a.id ≤ b.id) ∧
      (∀ n, n ∈ sub.nodes ↔ n = start ∨ ∃ chain ∈ chains, chain.nodes.getLast? = some n) ∧
      sub.edges = (g.allEdges now).filter fun e =>
        e.src ∈ sub.nodes.map Node.id ∧ e.dst ∈ sub.nodes.map Node.id := by
  obtain ⟨chains, hchains, hnodup, hjoined, hdistance, hall⟩ := pathsFrom_end hstart now maxHops
  obtain ⟨sub, hsub, hsnodup, hsorted, hnodes, hedges⟩ := subgraph_end hstart now maxHops
  have hdAll : (g.allNodes.map Node.id).Nodup :=
    ((List.perm_insertionSort _ g.nodes).map Node.id).nodup_iff.2 hd
  have hsame : ∀ n ∈ g.allNodes, ∀ m ∈ g.allNodes, n.id = m.id → n = m :=
    fun n hn m hm => List.inj_on_of_nodup_map hdAll hn hm
  have hstartmem := findNode_mem hstart
  rw [List.map_cons, List.nodup_cons] at hnodup
  have hends : ∀ n, (∃ chain ∈ chains, chain.nodes.getLast? = some n) ↔
      n ∈ g.nodes ∧ 1 ≤ (g.linkGraph now).edist start.id n.id ∧
        (g.linkGraph now).edist start.id n.id ≤ maxHops := by
    intro n
    constructor
    · rintro ⟨chain, hc, hlast⟩
      obtain ⟨m, hm, hm', -, hkey⟩ := (hjoined chain hc).last
      obtain rfl := Option.some.inj (hlast.symm.trans hm')
      refine ⟨mem_allNodes.1 hm, ?_, (hall n.id).1 ⟨chain, List.mem_cons_of_mem _ hc, hkey⟩⟩
      have hne : start.id ≠ n.id := by
        intro heq
        exact hnodup.1 (List.mem_map.2 ⟨chain, hc, hkey.trans heq.symm⟩)
      exact ENat.one_le_iff_ne_zero.2 (SimpleGraph.edist_pos_of_ne hne).ne'
    · rintro ⟨hn, hpos, hle⟩
      obtain ⟨chain, hc, hkey⟩ := (hall n.id).2 hle
      rcases List.mem_cons.1 hc with rfl | hc
      · rw [← hkey] at hpos
        exact absurd (SimpleGraph.edist_self (G := g.linkGraph now))
          (ENat.one_le_iff_ne_zero.1 hpos)
      · obtain ⟨m, hm, hlast, -, hkey'⟩ := (hjoined chain hc).last
        obtain rfl := hsame m hm n (mem_allNodes.2 hn) (hkey'.symm.trans hkey)
        exact ⟨chain, hc, hlast⟩
  refine ⟨chains, sub, hchains, hsub, ?_, hends, fun chain hc => ⟨hjoined chain hc, fun n hn => ?_⟩,
    hsnodup, hsorted, fun n => ?_, hedges⟩
  · refine List.Nodup.of_map (fun last => (last.map Node.id).getD "") ?_
    rw [List.map_map]
    exact hnodup.2
  · obtain ⟨m, -, hm, -, hkey⟩ := (hjoined chain hc).last
    obtain rfl := Option.some.inj (hm.symm.trans hn)
    rw [← hkey]
    exact hdistance chain hc
  · rw [hends, hnodes]
    constructor
    · rintro ⟨v, hv, rfl⟩
      obtain ⟨chain, hc, rfl⟩ := (hall v).2 hv
      rcases List.mem_cons.1 hc with rfl | hc
      · refine .inl (hsame _ (adjacencyNode_mem ?_) _ hstartmem (adjacencyNode_id _))
        exact List.mem_map_of_mem hstartmem
      · obtain ⟨m, hm, hlast, -, hkey⟩ := (hjoined chain hc).last
        have heq : adjacencyNode (g.adjacency now) chain.key = m :=
          hsame _ (adjacencyNode_mem (hkey ▸ List.mem_map_of_mem hm)) _ hm
            ((adjacencyNode_id _).trans hkey)
        rw [heq]
        exact .inr ((hends m).1 ⟨chain, hc, hlast⟩)
    · rintro (hn | ⟨hn, -, hle⟩)
      · rw [hn]
        refine ⟨start.id, by simp, hsame _ hstartmem _ (adjacencyNode_mem ?_)
          (adjacencyNode_id _).symm⟩
        exact List.mem_map_of_mem hstartmem
      · have hn := mem_allNodes.2 hn
        refine ⟨n.id, hle, hsame _ hn _ (adjacencyNode_mem ?_) (adjacencyNode_id _).symm⟩
        exact List.mem_map_of_mem hn

/-- The firms of `threeFirms`, and a supplier of one of them in both roles. -/
def firmRing : GraphStore ℚ where
  nodes := threeFirms
  edges := threeFirmEdges ++ [("a", "b"), ("a", "b")].map fun (src, dst) =>
    { src, dst, relation := .competes, weight := 1, sourceName := "prospectus", confidence := 1 }

theorem traversal_firmRing : ∃ chains sub, pathsFrom firmRing 0 "c" 1 = some (.ok chains) ∧
    subgraph firmRing 0 "c" 1 = some (.ok sub) ∧
      ∀ n, (∃ chain ∈ chains, chain.nodes.getLast? = some n) ↔
        n ∈ threeFirms ∧ 1 ≤ (firmRing.linkGraph 0).edist "c" n.id ∧
          (firmRing.linkGraph 0).edist "c" n.id ≤ 1 := by
  obtain ⟨chains, sub, hchains, hsub, -, hends, -⟩ := traversal_distances firmRing (by decide) 0 "c"
    { id := "c", kind := .company, name := "c" } (by decide) 1
  exact ⟨chains, sub, hchains, hsub, hends⟩

example : (pathsFrom firmRing 0 "c" 2).map (·.map fun chains =>
    chains.map fun chain => chain.nodes.map Node.id) = some (.ok [["c", "a"], ["c", "a", "b"]]) := by
  decide

end Astock
