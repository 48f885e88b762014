import Astock.Lib.Transfer
import Astock.Proof.Components

/-!
# PageRank is a distribution

* `rankLinks_end`: the degrees and the sources are those of the edges with both ends listed.
* `rankStep_end`: **one iteration is defined and computes `nextRank`**; no division is by zero, since
  a source has an outgoing edge.
* `Distribution`: ranks that sum to one, none below the share of a random jump; it is kept
  (`Distribution.next`).
* `pagerank_distribution`: **the ranks returned are such a distribution**.
-/

namespace Astock

open Finset Transfer

variable {F K : Type} {n : ℕ} {nodes : List Node} {edges : List (Edge F)} {pairs : List (ℕ × ℕ)}

/-! ## Degrees and sources -/

/-- The columns of the edges so far. -/
structure RankLinks.Of (links : RankLinks) (n : ℕ) (pairs : List (ℕ × ℕ)) : Prop where
  outDegree : links.outDegree = (List.range n).map (degree pairs)
  incoming : links.incoming = (List.range n).map (sources pairs)

theorem getElem?_map_range {α : Type} (f : ℕ → α) {i : ℕ} (hi : i < n) :
    ((List.range n).map f)[i]? = some (f i) := by
  rw [List.getElem?_map, List.getElem?_range hi]
  rfl

theorem store_map_range {α : Type} (f : ℕ → α) {i : ℕ} (hi : i < n) (a : α) :
    Checked.store ((List.range n).map f) i a =
      some ((List.range n).map (Function.update f i a)) := by
  rw [Checked.store, if_pos (by simpa using hi)]
  refine congrArg some (List.ext_getElem (by simp) fun j hj hj' => ?_)
  rw [List.getElem_set, List.getElem_map, List.getElem_map, List.getElem_range]
  by_cases hij : i = j
  · subst hij
    simp
  · rw [if_neg hij, Function.update_of_ne (Ne.symm hij)]

theorem replicate_eq_map_range {α : Type} (f : ℕ → α) (a : α) (hf : ∀ i, f i = a) :
    List.replicate n a = (List.range n).map f := by
  refine List.ext_getElem (by simp) fun i hi hi' => ?_
  simp [hf]

theorem RankLinks.Of.add {links : RankLinks} (h : links.Of n pairs) {s d : ℕ} (hs : s < n)
    (hd : d < n) : ∃ links', links.add s d = some links' ∧ links'.Of n (pairs ++ [(s, d)]) := by
  refine ⟨{
      outDegree := (List.range n).map (degree (pairs ++ [(s, d)]))
      incoming := (List.range n).map (sources (pairs ++ [(s, d)])) }, ?_, ⟨rfl, rfl⟩⟩
  rw [RankLinks.add, h.outDegree, h.incoming, getElem?_map_range _ hs, getElem?_map_range _ hd,
    degree_append, sources_append]
  simp only [Option.bind_eq_bind, Option.bind_some, store_map_range _ hs, store_map_range _ hd]

theorem rankLinks_end (nodes : List Node) (edges : List (Edge F)) : ∃ links,
    rankLinks nodes edges = some links ∧ links.Of nodes.length (endPairs nodes edges) := by
  have hrun : ∀ (rest done : List (ℕ × ℕ)) links, RankLinks.Of links nodes.length done →
      (∀ p ∈ rest, p.1 < nodes.length ∧ p.2 < nodes.length) →
      ∃ links', rest.foldlM (fun (links : RankLinks) p => links.add p.1 p.2) links = some links' ∧
        links'.Of nodes.length (done ++ rest) := by
    intro rest
    induction rest with
    | nil => exact fun done links h _ => ⟨links, rfl, by rwa [List.append_nil]⟩
    | cons p rest ih =>
      intro done links h hrest
      obtain ⟨⟨hs, hd⟩, hrest⟩ := List.forall_mem_cons.1 hrest
      obtain ⟨links', hadd, hlinks⟩ := h.add hs hd
      obtain ⟨links'', hrun, hend⟩ := ih (done ++ [p]) links' hlinks hrest
      refine ⟨links'', ?_, by rwa [List.append_assoc] at hend⟩
      rw [List.foldlM_cons, hadd]
      exact hrun
  obtain ⟨links, hlinks, hof⟩ := hrun (endPairs nodes edges) []
    { outDegree := List.replicate nodes.length 0, incoming := List.replicate nodes.length [] }
    ⟨replicate_eq_map_range _ 0 fun _ => rfl, replicate_eq_map_range _ [] fun _ => rfl⟩
    fun p hp => endPairs_lt hp
  refine ⟨links, ?_, hof⟩
  rw [List.foldlM_filterMap] at hlinks
  rw [← hlinks, rankLinks]
  congr 1
  funext links edge
  cases edgeEnds nodes edge with
  | none => rfl
  | some p => rfl

/-! ## One iteration -/

section Rank

variable [Field K] [LinearOrder K]

theorem divide_of_ne {a b : K} (hb : b ≠ 0) : divide a b = some (a / b) := if_neg hb

/-- The rank of the nodes without outgoing edges. -/
def danglingMass (pairs : List (ℕ × ℕ)) (n : ℕ) (f : ℕ → K) : K :=
  ∑ i ∈ range n, if degree pairs i = 0 then f i else 0

/-- What the sources of `d` pass on to it. -/
def arriving (pairs : List (ℕ × ℕ)) (f : ℕ → K) (d : ℕ) : K :=
  ((sources pairs d).map fun s => f s / (degree pairs s : K)).sum

def nextRank (pairs : List (ℕ × ℕ)) (n : ℕ) (damping : K) (f : ℕ → K) (i : ℕ) : K :=
  (1 - damping) / n + damping * danglingMass pairs n f / n + damping * arriving pairs f i

omit [LinearOrder K] in
theorem sum_map_range (f : ℕ → K) :
    ((List.range n).map f).sum = ∑ i ∈ range n, f i := rfl

theorem danglingRank_end {links : RankLinks} (h : links.Of n pairs) (f : ℕ → K) :
    danglingRank links ((List.range n).map f) = some (danglingMass pairs n f) := by
  have hstep : ∀ sum, ∀ entry ∈ ((List.range n).map f).zipIdx,
      (do
        let degree ← links.outDegree[entry.2]?
        some (if degree = 0 then sum + entry.1 else sum)) =
      some (sum + if degree pairs entry.2 = 0 then entry.1 else 0) := by
    rintro sum ⟨r, i⟩ hentry
    have hi : i < n := by
      simpa using (List.getElem?_eq_some_iff.1 (List.mem_zipIdx_iff_getElem?.1 hentry)).1
    rw [h.outDegree, getElem?_map_range _ hi]
    by_cases hdegree : degree pairs i = 0
    · simp [hdegree]
    · simp [hdegree]
  have hmap : ((List.range n).map f).zipIdx.map
      (fun entry => if degree pairs entry.2 = 0 then entry.1 else 0) =
      (List.range n).map fun i => if degree pairs i = 0 then f i else 0 := by
    refine List.ext_getElem (by simp) fun i hi hi' => ?_
    simp
  rw [danglingRank]
  refine (Checked.foldlM_sum hstep 0).trans ?_
  rw [hmap, zero_add]
  rfl

theorem incomingRank_end [CharZero K] (hpairs : ∀ p ∈ pairs, p.1 < n ∧ p.2 < n) {links : RankLinks}
    (h : links.Of n pairs) (f : ℕ → K) (d : ℕ) :
    incomingRank links ((List.range n).map f) (sources pairs d) = some (arriving pairs f d) := by
  have hstep : ∀ sum : K, ∀ s ∈ sources pairs d,
      (do
        let r ← ((List.range n).map f)[s]?
        let degree ← links.outDegree[s]?
        let share ← divide r degree
        some (sum + share)) = some (sum + f s / (degree pairs s : K)) := by
    intro sum s hs
    obtain ⟨⟨p, hp, rfl⟩, hdegree⟩ := of_mem_sources hs
    have hlt := (hpairs p hp).1
    have hne : (degree pairs p.1 : K) ≠ 0 := Nat.cast_ne_zero.2 hdegree
    rw [h.outDegree, getElem?_map_range _ hlt, getElem?_map_range _ hlt]
    simp only [Option.bind_eq_bind, Option.bind_some, divide_of_ne hne]
  rw [incomingRank]
  refine (Checked.foldlM_sum hstep 0).trans ?_
  rw [zero_add]
  rfl

theorem rankStep_end [CharZero K] (hn : n ≠ 0) (hpairs : ∀ p ∈ pairs, p.1 < n ∧ p.2 < n)
    {links : RankLinks} (h : links.Of n pairs) (damping : K) (f : ℕ → K) : ∃ delta,
    rankStep links ((1 - damping) / n) damping ((List.range n).map f) =
      some ((List.range n).map (nextRank pairs n damping f), delta) := by
  have hne : (n : K) ≠ 0 := Nat.cast_ne_zero.2 hn
  have hnext : links.incoming.mapM (fun sources => do
      let sum ← incomingRank links ((List.range n).map f) sources
      some ((1 - damping) / n + damping * danglingMass pairs n f / n + damping * sum)) =
      some ((List.range n).map (nextRank pairs n damping f)) := by
    rw [h.incoming, List.mapM_map]
    refine Checked.mapM_eq fun d _ => ?_
    rw [Function.comp_apply, incomingRank_end hpairs h]
    rfl
  refine ⟨(List.zipWith (fun a b => |a - b|) ((List.range n).map (nextRank pairs n damping f))
    ((List.range n).map f)).sum, ?_⟩
  rw [rankStep, danglingRank_end h]
  simp only [Option.bind_eq_bind, Option.bind_some, List.length_map, List.length_range,
    divide_of_ne hne] at hnext ⊢
  rw [hnext]
  rfl

end Rank

/-! ## Distributions -/

section Distribution

variable [Field K] [LinearOrder K] [IsStrictOrderedRing K] {damping : K} {f : ℕ → K}

/-- **What the iterations keep.** -/
structure Distribution (n : ℕ) (damping : K) (f : ℕ → K) : Prop where
  least : ∀ i < n, (1 - damping) / n ≤ f i
  sum : ∑ i ∈ range n, f i = 1

/-- The uniform ranks. -/
theorem Distribution.first (hn : n ≠ 0) (h0 : 0 ≤ damping) :
    Distribution n damping fun _ => 1 / (n : K) where
  least := by
    intro i _
    have hpos : (0 : K) < n := by positivity
    gcongr
    linarith
  sum := by
    have hne : (n : K) ≠ 0 := Nat.cast_ne_zero.2 hn
    rw [sum_const, card_range, nsmul_eq_mul]
    field_simp

theorem Distribution.nonneg (h : Distribution n damping f) (h1 : damping ≤ 1) {i : ℕ} (hi : i < n) :
    0 ≤ f i := by
  have hbase : 0 ≤ (1 - damping) / (n : K) := div_nonneg (by linarith) (Nat.cast_nonneg n)
  exact hbase.trans (h.least i hi)

/-- **An iteration keeps the distribution**: what the nodes with an outgoing edge have arrives along
the edges, the rest is spread evenly. -/
theorem Distribution.next (hn : n ≠ 0) (h0 : 0 ≤ damping) (h1 : damping ≤ 1)
    (hpairs : ∀ p ∈ pairs, p.1 < n ∧ p.2 < n) (h : Distribution n damping f) :
    Distribution n damping (nextRank pairs n damping f) where
  least := by
    intro i _
    have hdangling : 0 ≤ danglingMass pairs n f := by
      refine sum_nonneg fun j hj => ?_
      by_cases hdegree : degree pairs j = 0
      · rw [if_pos hdegree]
        exact h.nonneg h1 (mem_range.1 hj)
      · rw [if_neg hdegree]
    have harriving : 0 ≤ arriving pairs f i := by
      refine List.sum_nonneg fun share hshare => ?_
      obtain ⟨s, hs, rfl⟩ := List.mem_map.1 hshare
      obtain ⟨⟨p, hp, rfl⟩, -⟩ := of_mem_sources hs
      exact div_nonneg (h.nonneg h1 (hpairs p hp).1) (Nat.cast_nonneg _)
    have huniform : 0 ≤ damping * danglingMass pairs n f / n :=
      div_nonneg (mul_nonneg h0 hdangling) (Nat.cast_nonneg n)
    have hpassed : 0 ≤ damping * arriving pairs f i := mul_nonneg h0 harriving
    unfold nextRank
    linarith
  sum := by
    have hne : (n : K) ≠ 0 := Nat.cast_ne_zero.2 hn
    have hmass : ∑ i ∈ range n, arriving pairs f i + danglingMass pairs n f = 1 :=
      (sum_shares hpairs f).trans h.sum
    calc ∑ i ∈ range n, nextRank pairs n damping f i
        = (1 - damping) + damping * danglingMass pairs n f +
            damping * ∑ i ∈ range n, arriving pairs f i := by
          simp only [nextRank, sum_add_distrib, sum_const, card_range, nsmul_eq_mul, ← mul_sum]
          field_simp
      _ = (1 - damping) + damping *
            (∑ i ∈ range n, arriving pairs f i + danglingMass pairs n f) := by ring
      _ = 1 := by rw [hmass]; ring

/-- **The iterations are defined and end with a distribution.** -/
theorem rankLoop_end (hn : n ≠ 0) (h0 : 0 ≤ damping) (h1 : damping ≤ 1)
    (hpairs : ∀ p ∈ pairs, p.1 < n ∧ p.2 < n) {links : RankLinks} (hlinks : links.Of n pairs)
    (tolerance : K) : ∀ (iterations : ℕ) (f : ℕ → K), Distribution n damping f →
      ∃ f', rankLoop links ((1 - damping) / n) damping tolerance iterations ((List.range n).map f) =
        some ((List.range n).map f') ∧ Distribution n damping f' := by
  intro iterations
  induction iterations with
  | zero => exact fun f hf => ⟨f, rfl, hf⟩
  | succ iterations ih =>
    intro f hf
    have hnext := hf.next hn h0 h1 hpairs
    obtain ⟨delta, hstep⟩ := rankStep_end hn hpairs hlinks damping f
    rw [rankLoop, hstep]
    simp only [Option.bind_eq_bind, Option.bind_some]
    by_cases hsmall : delta < tolerance
    · rw [if_pos hsmall]
      exact ⟨_, rfl, hnext⟩
    · rw [if_neg hsmall]
      exact ih _ hnext

/-- **PageRank is a distribution**: on every graph the ranks are defined, one for each node, they
are not negative, sum to one, and none is below the share of a random jump. -/
theorem pagerank_distribution (nodes : List Node) (hne : nodes ≠ [])
    (hd : (nodes.map Node.id).Nodup) (edges : List (Edge F)) (damping : K) (h0 : 0 ≤ damping)
    (h1 : damping ≤ 1) (tolerance : K) (maxIterations : ℕ) : ∃ ranks,
      pagerank nodes edges damping tolerance maxIterations = some ranks ∧
        ranks.map Prod.fst = nodes.map Node.id ∧ (ranks.map Prod.fst).Nodup ∧
        (ranks.map Prod.snd).sum = 1 ∧
        ∀ r ∈ ranks.map Prod.snd, 0 ≤ r ∧ (1 - damping) / nodes.length ≤ r := by
  have hn : nodes.length ≠ 0 := fun h => hne (List.eq_nil_of_length_eq_zero h)
  have hcast : (nodes.length : K) ≠ 0 := Nat.cast_ne_zero.2 hn
  obtain ⟨links, hlinks, hof⟩ := rankLinks_end nodes edges
  obtain ⟨f, hloop, hf⟩ := rankLoop_end hn h0 h1 (fun p hp => endPairs_lt hp) hof tolerance
    maxIterations _ (Distribution.first hn h0)
  have hcollect : nodes.zipIdx.mapM (fun entry => do
      let r ← ((List.range nodes.length).map f)[entry.2]?
      some (entry.1.id, r)) = some (nodes.zipIdx.map fun entry => (entry.1.id, f entry.2)) := by
    refine Checked.mapM_eq fun entry hentry => ?_
    have hi := (List.getElem?_eq_some_iff.1 (List.mem_zipIdx_iff_getElem?.1 hentry)).1
    rw [getElem?_map_range _ hi]
    rfl
  have hids : (nodes.zipIdx.map fun entry => (entry.1.id, f entry.2)).map Prod.fst =
      nodes.map Node.id := by
    refine List.ext_getElem (by simp) fun i hi hi' => ?_
    simp
  have hranks : (nodes.zipIdx.map fun entry => (entry.1.id, f entry.2)).map Prod.snd =
      (List.range nodes.length).map f := by
    refine List.ext_getElem (by simp) fun i hi hi' => ?_
    simp
  refine ⟨_, ?_, hids, hids ▸ hd, by rw [hranks, sum_map_range, hf.sum], fun r hr => ?_⟩
  · rw [pagerank, if_neg hn, hlinks]
    simp only [Option.bind_eq_bind, Option.bind_some, divide_of_ne hcast] at hcollect ⊢
    rw [replicate_eq_map_range (fun _ => 1 / (nodes.length : K)) _ fun _ => rfl, hloop]
    exact hcollect
  · rw [hranks] at hr
    obtain ⟨i, hi, rfl⟩ := List.mem_map.1 hr
    have hlt := List.mem_range.1 hi
    exact ⟨hf.nonneg h1 hlt, hf.least i hlt⟩

end Distribution

theorem pagerank_threeFirms : ∃ ranks,
    pagerank threeFirms threeFirmEdges (17 / 20 : ℚ) 0 50 = some ranks ∧
      ranks.map Prod.fst = ["c", "a", "b"] ∧ (ranks.map Prod.snd).sum = 1 := by
  obtain ⟨ranks, hranks, hids, -, hsum, -⟩ := pagerank_distribution threeFirms (by decide)
    (by decide) threeFirmEdges (17 / 20 : ℚ) (by norm_num) (by norm_num) 0 50
  exact ⟨ranks, hranks, hids, hsum⟩

-- the firm `b` keeps its rank through its loop, and loses nothing to the dangling edge
example : pagerank threeFirms threeFirmEdges (1 : ℚ) 0 2 =
    some [("c", 1 / 3), ("a", 1 / 3), ("b", 1 / 3)] := by
  decide +kernel

end Astock
