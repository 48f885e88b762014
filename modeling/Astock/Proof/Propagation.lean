import Astock.Spec.Propagation

/-!
# What event propagation finds

* `visits_end`: the search ends.
* `propagate_once`: each company is reported once, with the hops of an admissible path, and
  the subject is not.
* `propagate_shortest`: **the companies within the hop limit are all reported, with the fewest
  hops, when to each node the paths of fewest steps cover the others**: they have no more
  hops and lead wherever the others lead.
* `exposedProducer_misses`: a first visit that does not pass a price on hides a customer.
-/

namespace Astock

variable {F : Type} {A : Adjacency F} {subject : Node} {direction : ℤ} {maxHops : ℕ}

/-! ## Paths -/

/-- The admissible paths from the subject, by the node they end at, the state carried, their
steps and their hops. -/
inductive Reaches (A : Adjacency F) (subject : Node) (direction : ℤ) :
    Node → PropagationState → ℕ → ℕ → Prop
  | start : Reaches A subject direction subject (seedState subject direction) 0 0
  | step {n s k h edge otherId m note s'} : Reaches A subject direction n s k h →
      (edge, otherId) ∈ A.links n.id → A.nodes otherId = some m →
      transition n s edge m (subject.kind = .company) = some (note, s') →
      Reaches A subject direction m s' (k + 1) (h + hopCost edge m)

theorem Reaches.through {n m : Node} {s s' : PropagationState} {k h : ℕ}
    (hreach : Reaches A subject direction n s k h) (edge : Edge F)
    (hlink : (edge, m.id) ∈ A.links n.id) (hm : A.nodes m.id = some m)
    (ht : (transition n s edge m (subject.kind = .company)).map Prod.snd = some s') :
    Reaches A subject direction m s' (k + 1) (h + hopCost edge m) := by
  obtain ⟨⟨note, state⟩, hst, rfl⟩ := Option.map_eq_some_iff.1 ht
  exact hreach.step hlink hm hst

/-- A path within the hop limit. -/
def Within (A : Adjacency F) (subject : Node) (direction : ℤ) (maxHops : ℕ) (n : Node)
    (s : PropagationState) (k h : ℕ) : Prop :=
  Reaches A subject direction n s k h ∧ h ≤ maxHops

section Paths

variable [F64 F]

theorem advance_eq_some {cur item : Frontier F} {link : Edge F × String} :
    advance A maxHops (subject.kind = .company) cur link = some item →
      ∃ m note s', A.nodes link.2 = some m ∧
        transition cur.node cur.state link.1 m (subject.kind = .company) = some (note, s') ∧
        cur.hop + hopCost link.1 m ≤ maxHops ∧ item.node = m ∧ item.state = s' ∧
        item.hop = cur.hop + hopCost link.1 m ∧ item.steps.length = cur.steps.length + 1 := by
  intro h
  obtain ⟨edge, otherId⟩ := link
  unfold advance at h
  obtain ⟨m, hm, h⟩ := Option.bind_eq_some_iff.1 h
  obtain ⟨⟨note, s'⟩, ht, h⟩ := Option.bind_eq_some_iff.1 h
  dsimp only at h
  by_cases hlimit : maxHops < cur.hop + hopCost edge m
  · rw [if_pos hlimit] at h; simp at h
  · rw [if_neg hlimit] at h
    obtain rfl := Option.some.inj h
    exact ⟨m, note, s', hm, ht, not_lt.1 hlimit, rfl, rfl, rfl, by simp⟩

/-- A link is followed when its transition is admissible within the limit. -/
theorem advance_of_transition {cur : Frontier F} {edge : Edge F} {otherId : String} {m : Node}
    {note : String} {s' : PropagationState} (hm : A.nodes otherId = some m)
    (ht : transition cur.node cur.state edge m (subject.kind = .company) = some (note, s'))
    (hlimit : cur.hop + hopCost edge m ≤ maxHops) :
    ∃ item, advance A maxHops (subject.kind = .company) cur (edge, otherId) = some item ∧
      item.node = m ∧ item.state = s' ∧ item.hop = cur.hop + hopCost edge m ∧
      item.steps.length = cur.steps.length + 1 := by
  unfold advance
  dsimp only
  rw [hm]
  simp only [Option.bind_eq_bind, Option.bind_some]
  rw [ht]
  simp only [Option.bind_some, if_neg (not_lt.2 hlimit)]
  exact ⟨_, rfl, rfl, rfl, rfl, by simp⟩

theorem expand_depth : ∀ x : Frontier F, ∀ y ∈ expand A maxHops (subject.kind = .company) x,
    y.steps.length = x.steps.length + 1 := by
  intro x y hy
  obtain ⟨link, -, hlink⟩ := List.mem_filterMap.1 hy
  obtain ⟨m, note, s', -, -, -, -, -, -, hlen⟩ := advance_eq_some hlink
  exact hlen

/-- **The walks of the search** are the paths within the limit. -/
theorem within_of_walk {x : Frontier F}
    (h : Search.Walk (expand A maxHops (subject.kind = .company)) (seed subject direction) x) :
    Within A subject direction maxHops x.node x.state x.steps.length x.hop := by
  induction h with
  | refl => exact ⟨.start, Nat.zero_le _⟩
  | tail hwalk hmove ih =>
    obtain ⟨⟨edge, otherId⟩, hlink, hadv⟩ := List.mem_filterMap.1 hmove
    obtain ⟨m, note, s', hm, ht, hlimit, hnode, hstate, hhop, hlen⟩ := advance_eq_some hadv
    rw [hnode, hstate, hhop, hlen]
    exact ⟨.step ih.1 hlink hm ht, hlimit⟩

theorem walk_of_within {n : Node} {s : PropagationState} {k h : ℕ}
    (hreach : Within A subject direction maxHops n s k h) : ∃ x : Frontier F,
      Search.Walk (expand A maxHops (subject.kind = .company)) (seed subject direction) x ∧
        x.node = n ∧ x.state = s ∧ x.steps.length = k ∧ x.hop = h := by
  obtain ⟨hreach, hlimit⟩ := hreach
  induction hreach with
  | start => exact ⟨seed subject direction, .refl, rfl, rfl, rfl, rfl⟩
  | @step n s k h edge otherId m note s' hreach hlink hm ht ih =>
    obtain ⟨x, hx, rfl, rfl, rfl, rfl⟩ := ih (by omega)
    obtain ⟨item, hadv, hnode, hstate, hhop, hlen⟩ := advance_of_transition hm ht hlimit
    exact ⟨item, hx.tail (List.mem_filterMap.2 ⟨_, hlink, hadv⟩), hnode, hstate, hlen, hhop⟩

/-! ## The visits -/

omit [F64 F] in
/-- The id of a node on a path is that of the subject or of a node of the graph. -/
theorem Reaches.id_mem {n : Node} {s : PropagationState} {k h : ℕ} {nodes : List Node}
    (hnodes : A.nodes = fun id => Table.find Node.id id nodes)
    (hreach : Reaches A subject direction n s k h) : n.id ∈ subject.id :: nodes.map Node.id := by
  cases hreach with
  | start => exact List.mem_cons_self
  | step _ _ hm _ =>
    rw [hnodes] at hm
    exact List.mem_cons_of_mem _ (List.mem_map_of_mem (Table.mem_of_find hm))

/-- **The search ends**: its queue is empty. -/
theorem visits_end {nodes : List Node} (hnodes : A.nodes = fun id => Table.find Node.id id nodes) :
    (visits A nodes maxHops subject direction).queue = [] := by
  have hends : (Search.run (fun item : Frontier F => item.node.id)
      (expand A maxHops (subject.kind = .company)) (subject.id :: nodes.map Node.id).length
      (Search.start (seed subject direction))).queue = [] :=
    Search.run_ends expand_depth fun x hx => (within_of_walk hx).1.id_mem hnodes
  rwa [List.length_cons, List.length_map] at hends

theorem visits_inv (A : Adjacency F) (nodes : List Node) (maxHops : ℕ) (subject : Node)
    (direction : ℤ) :
    Search.Inv (fun item : Frontier F => item.node.id) (expand A maxHops (subject.kind = .company))
      (fun item => item.steps.length) (seed subject direction)
      (visits A nodes maxHops subject direction) :=
  Search.run_inv expand_depth _ _

/-- The visits but that of the subject, and the subject is not among them. -/
theorem visits_tail (A : Adjacency F) (nodes : List Node) (maxHops : ℕ) (subject : Node)
    (direction : ℤ) :
    ∃ found : List (Frontier F),
      (visits A nodes maxHops subject direction).seen = seed subject direction :: found ∧
      (found.map fun item => item.node.id).Nodup ∧ ∀ item ∈ found, item.node.id ≠ subject.id := by
  have hinv := visits_inv A nodes maxHops subject direction
  have hfirst := hinv.first
  have hnodup := hinv.nodup
  cases hseen : (visits A nodes maxHops subject direction : Search.State (Frontier F)).seen with
  | nil => rw [hseen] at hfirst; simp at hfirst
  | cons x found =>
    rw [hseen] at hfirst hnodup
    obtain rfl := Option.some.inj hfirst
    rw [List.map_cons, List.nodup_cons] at hnodup
    exact ⟨found, rfl, hnodup.2, fun item hitem heq => hnodup.1 (heq ▸ List.mem_map_of_mem hitem)⟩

/-! ## The report -/

def ImpactReport.entries (r : ImpactReport F) : List (ImpactEntry F) :=
  r.primaryBenefit ++ r.primaryHarm ++ r.secondaryBenefit ++ r.secondaryHarm ++ r.potential

omit [F64 F] in
theorem filter_split (l : List (ImpactEntry F)) (p q : ImpactEntry F → Prop) [DecidablePred p]
    [DecidablePred q] :
    (l.filter (fun e => p e ∧ q e) ++ l.filter (fun e => p e ∧ ¬ q e)).Perm (l.filter p) := by
  have hsplit := List.filter_append_perm (fun e => decide (q e)) (l.filter p)
  rw [List.filter_filter, List.filter_filter] at hsplit
  refine List.Perm.trans (List.Perm.of_eq ?_) hsplit
  congr 1
  · refine List.filter_congr fun e _ => ?_
    rw [Bool.decide_and, Bool.and_comm]
  · refine List.filter_congr fun e _ => ?_
    rw [Bool.decide_and, Bool.and_comm, decide_not]

omit [F64 F] in
/-- The buckets of the report share the entries out. -/
theorem buckets_perm (l : List (ImpactEntry F)) :
    (l.filter (fun e => e.hop = 1 ∧ e.direction = .benefit) ++
      l.filter (fun e => e.hop = 1 ∧ e.direction = .harm) ++
      l.filter (fun e => e.hop = 2 ∧ e.direction = .benefit) ++
      l.filter (fun e => e.hop = 2 ∧ e.direction = .harm) ++
      l.filter (fun e => e.hop ≠ 1 ∧ e.hop ≠ 2)).Perm l := by
  have hharm (n : ℕ) : l.filter (fun e => e.hop = n ∧ e.direction = .harm) =
      l.filter fun e => e.hop = n ∧ ¬ e.direction = .benefit := by
    refine List.filter_congr fun e _ => decide_eq_decide.2 (and_congr_right fun _ => ?_)
    cases e.direction <;> simp
  have hone := filter_split l (·.hop = 1) (·.direction = .benefit)
  have htwo := filter_split l (·.hop = 2) (·.direction = .benefit)
  have hrest := filter_split l (·.hop ≠ 1) (·.hop = 2)
  have hall := List.filter_append_perm (fun e : ImpactEntry F => decide (e.hop = 1)) l
  have htwo' : l.filter (fun e => e.hop ≠ 1 ∧ e.hop = 2) = l.filter fun e => e.hop = 2 := by
    refine List.filter_congr fun e _ => decide_eq_decide.2 ?_
    omega
  have hnot : l.filter (fun e => !decide (e.hop = 1)) = l.filter fun e => e.hop ≠ 1 := by
    refine List.filter_congr fun e _ => ?_
    rw [decide_not]
  rw [htwo'] at hrest
  rw [hnot] at hall
  rw [hharm, hharm, List.append_assoc, List.append_assoc, List.append_assoc, ← List.append_assoc]
  refine List.Perm.trans (hone.append ?_) hall
  rw [← List.append_assoc]
  exact (htwo.append_right _).trans hrest

/-- **A report** holds the entries of the visits, each once. -/
theorem propagate_ok {g : GraphStore F} {now : ℤ} {event : Event F} {report : ImpactReport F}
    (h : propagate g now maxHops event = .ok report) :
    g.findNode event.subject = some report.subject ∧
      report.entries.Perm ((visits (g.adjacency now) g.allNodes maxHops report.subject
        event.direction).seen.tail.filterMap (impactEntry report.subject event)) := by
  unfold propagate at h
  cases hsubject : g.findNode event.subject with
  | none => rw [hsubject] at h; simp at h
  | some subject =>
    rw [hsubject] at h
    dsimp only at h
    split at h
    · have herror : (.error _ : Except GraphError (ImpactReport F)) = .ok report := h
      exact absurd herror (by simp)
    · obtain rfl := Except.ok.inj h
      exact ⟨rfl, (buckets_perm _).trans (List.mergeSort_perm _ _)⟩

theorem impactEntry_eq_some {event : Event F} {item : Frontier F} {e : ImpactEntry F}
    (h : impactEntry subject event item = some e) :
    e.nodeId = item.node.id ∧ e.hop = item.hop ∧ item.node.kind = .company := by
  unfold impactEntry at h
  cases hs : item.state with
  | price d => simp [hs] at h
  | prosperity sign pass =>
    rw [hs] at h
    dsimp only at h
    split at h
    · rename_i hkind
      obtain rfl := Option.some.inj h
      exact ⟨rfl, rfl, hkind⟩
    · simp at h

/-! ## What is always so -/

/-- **Each company is reported once**, with the hops of an admissible path within the limit,
and the subject is not reported. -/
structure ReportSound (A : Adjacency F) (direction : ℤ) (maxHops : ℕ) (report : ImpactReport F) :
    Prop where
  once : (report.entries.map (·.nodeId)).Nodup
  notSubject : ∀ e ∈ report.entries, e.nodeId ≠ report.subject.id
  reached : ∀ e ∈ report.entries, ∃ n s k, n.id = e.nodeId ∧ n.kind = .company ∧
    Within A report.subject direction maxHops n s k e.hop

theorem propagate_sound {g : GraphStore F} {now : ℤ} {event : Event F} {report : ImpactReport F}
    (h : propagate g now maxHops event = .ok report) :
    ReportSound (g.adjacency now) event.direction maxHops report := by
  obtain ⟨-, hperm⟩ := propagate_ok h
  have hinv := visits_inv (g.adjacency now) g.allNodes maxHops report.subject event.direction
  obtain ⟨found, hseen, hnodup, hother⟩ :=
    visits_tail (g.adjacency now) g.allNodes maxHops report.subject event.direction
  rw [hseen, List.tail_cons] at hperm
  have hentry : ∀ e ∈ report.entries, ∃ item ∈ found, e.nodeId = item.node.id ∧ e.hop = item.hop ∧
      item.node.kind = .company := by
    intro e he
    obtain ⟨item, hitem, heq⟩ := List.mem_filterMap.1 (hperm.mem_iff.1 he)
    exact ⟨item, hitem, impactEntry_eq_some heq⟩
  refine ⟨?_, fun e he => ?_, fun e he => ?_⟩
  · refine (hperm.map (·.nodeId)).nodup_iff.2 ?_
    -- the ids of the entries are among those of the visits, in the same order
    have hsub : ((found.filterMap (impactEntry report.subject event)).map (·.nodeId)).Sublist
        (found.map fun item => item.node.id) := by
      clear hseen hnodup hother hentry hperm
      induction found with
      | nil => exact List.Sublist.refl _
      | cons item found ih =>
        cases hitem : impactEntry report.subject event item with
        | none =>
          rw [List.filterMap_cons_none hitem]
          exact ih.trans (List.sublist_cons_self _ _)
        | some e =>
          rw [List.filterMap_cons_some hitem, List.map_cons, List.map_cons,
            (impactEntry_eq_some hitem).1]
          exact ih.cons_cons _
    exact hnodup.sublist hsub
  · obtain ⟨item, hitem, hid, -⟩ := hentry e he
    rw [hid]
    exact hother item hitem
  · obtain ⟨item, hitem, hid, hhop, hkind⟩ := hentry e he
    have hwalk := hinv.walks item (by rw [hseen]; exact List.mem_cons_of_mem _ hitem)
    exact ⟨item.node, item.state, item.steps.length, hid.symm, hkind, hhop ▸ within_of_walk hwalk⟩

/-! ## When nothing is missed -/

omit [F64 F] in
/-- From `n` in state `s`, a transition leads to the node. -/
def LeadsTo (A : Adjacency F) (subject : Node) (n : Node) (s : PropagationState) (m : Node)
    (cost : ℕ) : Prop :=
  ∃ edge otherId note s', (edge, otherId) ∈ A.links n.id ∧ A.nodes otherId = some m ∧
    transition n s edge m (subject.kind = .company) = some (note, s') ∧ hopCost edge m = cost

/-- **The paths of fewest steps cover the others**: such a path brings a company an impact, has
no more hops than any other path to the same node within the limit, and leads to each node
that the other leads to, at no higher cost. -/
structure FewestCover (A : Adjacency F) (subject : Node) (direction : ℤ) (maxHops : ℕ) : Prop where
  impact : ∀ n s k h, Within A subject direction maxHops n s k h → n.kind = .company →
    n.id ≠ subject.id →
    (∀ n' s' k' h', Within A subject direction maxHops n' s' k' h' → n'.id = n.id → k ≤ k') →
    ∃ sign pass, s = .prosperity sign pass
  cover : ∀ n s k h n' s' k' h', Within A subject direction maxHops n s k h →
    Within A subject direction maxHops n' s' k' h' → n.id = n'.id →
    (∀ n'' s'' k'' h'', Within A subject direction maxHops n'' s'' k'' h'' → n''.id = n.id →
      k ≤ k'') →
    h ≤ h' ∧ ∀ m cost, LeadsTo A subject n' s' m cost →
      ∃ cost', LeadsTo A subject n s m cost' ∧ cost' ≤ cost

/-- **The shortest impacts**: the companies other than the subject that an admissible path
reaches within the limit, each with the fewest hops of such a path. -/
def FindsShortest (A : Adjacency F) (direction : ℤ) (maxHops : ℕ) (report : ImpactReport F) : Prop :=
  ∀ id hop, (∃ e ∈ report.entries, e.nodeId = id ∧ e.hop = hop) ↔
    id ≠ report.subject.id ∧
      (∃ n s k, n.id = id ∧ n.kind = .company ∧ Within A report.subject direction maxHops n s k hop) ∧
      ∀ n s k h, n.id = id → Within A report.subject direction maxHops n s k h → hop ≤ h

omit [F64 F] in
/-- A node other than the subject on a path is the node of the graph with its id. -/
theorem Reaches.node_eq {n : Node} {s : PropagationState} {k h : ℕ} {nodes : List Node}
    (hnodes : A.nodes = fun id => Table.find Node.id id nodes)
    (hreach : Reaches A subject direction n s k h) (hne : n.id ≠ subject.id) :
    A.nodes n.id = some n := by
  cases hreach with
  | start => exact absurd rfl hne
  | step _ _ hm _ =>
    rw [hnodes] at hm ⊢
    have hid := Table.key_of_find hm
    rw [← hid] at hm
    exact hm

omit [F64 F] in
/-- One item has no more hops than another, and leads wherever it leads. -/
def Covers (A : Adjacency F) (subject : Node) (x y : Frontier F) : Prop :=
  x.hop ≤ y.hop ∧ ∀ m cost, LeadsTo A subject y.node y.state m cost →
    ∃ cost', LeadsTo A subject x.node x.state m cost' ∧ cost' ≤ cost

theorem Covers.expand {x y : Frontier F} (h : Covers A subject x y) :
    ∀ y' ∈ expand A maxHops (subject.kind = .company) y,
      ∃ x' ∈ Astock.expand A maxHops (subject.kind = .company) x, x'.node.id = y'.node.id := by
  intro y' hy'
  obtain ⟨hhop, hleads⟩ := h
  obtain ⟨⟨edge, otherId⟩, hlink, hadv⟩ := List.mem_filterMap.1 hy'
  obtain ⟨m, note, s', hm, ht, hlimit, hnode, -⟩ := advance_eq_some hadv
  obtain ⟨cost', ⟨edge', otherId', note', s'', hlink', hm', ht', rfl⟩, hcost⟩ :=
    hleads m _ ⟨edge, otherId, note, s', hlink, hm, ht, rfl⟩
  have hlimit' : x.hop + hopCost edge' m ≤ maxHops := by
    dsimp only at hlimit
    omega
  obtain ⟨x', hadv', hnode', -⟩ := advance_of_transition hm' ht' hlimit'
  exact ⟨x', List.mem_filterMap.2 ⟨_, hlink', hadv'⟩, by rw [hnode', hnode]⟩

/-- **Every path is covered** by a visit. -/
theorem visits_cover (hcover : FewestCover A subject direction maxHops) {nodes : List Node}
    (hnodes : A.nodes = fun id => Table.find Node.id id nodes) {n : Node} {s : PropagationState}
    {k h : ℕ} (hreach : Within A subject direction maxHops n s k h) :
    ∃ x ∈ (visits A nodes maxHops subject direction : Search.State (Frontier F)).seen,
      x.node.id = n.id ∧ x.hop ≤ h ∧ ∀ n' s' k' h', Within A subject direction maxHops n' s' k' h' →
        n'.id = n.id → x.steps.length ≤ k' := by
  -- fewest steps among the walks of the search are fewest steps among the paths
  have hleast {z : Frontier F} (hz : ∀ z' : Frontier F,
      Search.Walk (expand A maxHops (subject.kind = .company)) (seed subject direction) z' →
      z'.node.id = z.node.id → z.steps.length ≤ z'.steps.length) (n' : Node)
      (s' : PropagationState) (k' h' : ℕ) (hw : Within A subject direction maxHops n' s' k' h')
      (hid : n'.id = z.node.id) : z.steps.length ≤ k' := by
    obtain ⟨z', hz', rfl, rfl, rfl, rfl⟩ := walk_of_within hw
    exact hz z' hz' hid
  have hcovers : ∀ x y : Frontier F,
      Search.Walk (expand A maxHops (subject.kind = .company)) (seed subject direction) x →
      Search.Walk (expand A maxHops (subject.kind = .company)) (seed subject direction) y →
      x.node.id = y.node.id →
      (∀ z : Frontier F,
        Search.Walk (expand A maxHops (subject.kind = .company)) (seed subject direction) z →
        z.node.id = x.node.id → x.steps.length ≤ z.steps.length) → Covers A subject x y :=
    fun x y hx hy hid hfew =>
      hcover.cover _ _ _ _ _ _ _ _ (within_of_walk hx) (within_of_walk hy) hid (hleast hfew)
  obtain ⟨y, hy, rfl, rfl, rfl, rfl⟩ := walk_of_within hreach
  have hend : (visits A nodes maxHops subject direction).queue = [] := visits_end hnodes
  obtain ⟨x, hx, hid, hfewest, hle, -⟩ := Search.complete expand_depth
    (fun _ _ h => h.expand) hcovers (visits_inv A nodes maxHops subject direction) hend hy
  refine ⟨x, List.mem_append_left _ hx, hid, hle, fun n' s' k' h' hw hid' => ?_⟩
  exact hleast (fun z' hz' hzid => hfewest z' hz' (hzid.trans hid)) n' s' k' h' hw
    (hid'.trans hid.symm)

end Paths

/-! ## A company that is found, and one that is missed -/

def copper : Node where
  id := "commodity:cu"
  kind := .commodity
  name := "铜"

def cableMaker : Node where
  id := "company:600869"
  kind := .company
  name := "线缆厂"
  code := some "600869"

def cable : Node where
  id := "product:cable"
  kind := .product
  name := "线缆"

def applianceMaker : Node where
  id := "company:000651"
  kind := .company
  name := "家电厂"
  code := some "000651"

def annualEdge (src dst : Node) (relation : Relation) : Edge ℚ where
  src := src.id
  dst := dst.id
  relation := relation
  weight := 1 / 2
  sourceName := "公司年报2024"
  confidence := 3 / 4

def copperUp : Event ℚ where
  title := "铜价上涨10%"
  subject := "铜"
  magnitude := some (1 / 10)
  direction := 1

theorem ok_of_toOption {ε α : Type} {x : Except ε α} {a : α} (h : x.toOption = some a) :
    x = .ok a := by
  cases x with
  | error e => simp [Except.toOption] at h
  | ok b => exact congrArg Except.ok (Option.some.inj h)

/-- Copper and the cable maker that buys it. -/
def consumerOnly : GraphStore ℚ where
  nodes := [copper, cableMaker]
  edges := [annualEdge cableMaker copper .consumes]

/-- Paths go to the cable maker, and end there. -/
theorem consumerOnly_paths {n : Node} {s : PropagationState} {k h : ℕ}
    (hreach : Reaches (consumerOnly.adjacency 0) copper 1 n s k h) :
    n = copper ∧ s = .price 1 ∧ k = 0 ∧ h = 0 ∨
      n = cableMaker ∧ s = .prosperity (-1) (some 1) ∧ k = 1 ∧ h = 1 := by
  induction hreach with
  | start => exact .inl ⟨rfl, rfl, rfl, rfl⟩
  | @step n s k h edge otherId m note s' hreach hlink hm ht ih =>
    rcases ih with ⟨rfl, rfl, rfl, rfl⟩ | ⟨rfl, rfl, rfl, rfl⟩
    · have hlinks : (consumerOnly.adjacency 0).links copper.id =
          [(annualEdge cableMaker copper .consumes, cableMaker.id)] := by decide +kernel
      rw [hlinks, List.mem_singleton, Prod.mk.injEq] at hlink
      obtain ⟨rfl, rfl⟩ := hlink
      obtain rfl := Option.some.inj (hm.symm.trans (by decide +kernel :
        (consumerOnly.adjacency 0).nodes cableMaker.id = some cableMaker))
      have hstate := congrArg (Option.map Prod.snd) ht
      exact .inr ⟨rfl, (Option.some.inj hstate).symm, rfl, rfl⟩
    · have hlinks : (consumerOnly.adjacency 0).links cableMaker.id =
          [(annualEdge cableMaker copper .consumes, copper.id)] := by decide +kernel
      rw [hlinks, List.mem_singleton, Prod.mk.injEq] at hlink
      obtain ⟨rfl, rfl⟩ := hlink
      obtain rfl := Option.some.inj (hm.symm.trans (by decide :
        (consumerOnly.adjacency 0).nodes copper.id = some copper))
      have hnone : transition cableMaker (.prosperity (-1) (some 1))
          (annualEdge cableMaker copper .consumes) copper (copper.kind = .company) = none := by
        decide
      rw [hnone] at ht
      exact absurd ht (by simp)

theorem consumerOnly_cover : FewestCover (consumerOnly.adjacency 0) copper 1 3 where
  impact := by
    intro n s k h hw hkind hne _
    rcases consumerOnly_paths hw.1 with ⟨rfl, -⟩ | ⟨-, rfl, -⟩
    · exact absurd rfl hne
    · exact ⟨_, _, rfl⟩
  cover := by
    intro n s k h n' s' k' h' hw hw' hid _
    have hpaths := consumerOnly_paths hw.1
    have hpaths' := consumerOnly_paths hw'.1
    rcases hpaths with ⟨rfl, rfl, rfl, rfl⟩ | ⟨rfl, rfl, rfl, rfl⟩ <;>
      rcases hpaths' with ⟨rfl, rfl, rfl, rfl⟩ | ⟨rfl, rfl, rfl, rfl⟩
    · exact ⟨le_refl _, fun m cost hm => ⟨cost, hm, le_refl _⟩⟩
    · exact absurd hid (by decide)
    · exact absurd hid (by decide)
    · exact ⟨le_refl _, fun m cost hm => ⟨cost, hm, le_refl _⟩⟩

/-- The cable maker is exposed to copper, and buys it for the cables that the appliance maker
buys. -/
def exposedProducer : GraphStore ℚ where
  nodes := [copper, cableMaker, cable, applianceMaker]
  edges := [annualEdge cableMaker copper .exposedTo, annualEdge cableMaker copper .consumes,
    annualEdge cableMaker cable .produces, annualEdge applianceMaker cable .consumes]

/-- Copper reaches the appliance maker through the cost of cables. -/
theorem exposedProducer_reaches :
    Within (exposedProducer.adjacency 0) copper 1 3 applianceMaker (.prosperity (-1) (some 1)) 3 2 := by
  have hbuys : Reaches (exposedProducer.adjacency 0) copper 1 cableMaker
      (.prosperity (-1) (some 1)) 1 1 :=
    Reaches.start.through (annualEdge cableMaker copper .consumes) (by decide +kernel)
      (by decide) (by decide)
  have hcable : Reaches (exposedProducer.adjacency 0) copper 1 cable (.price 1) 2 1 :=
    hbuys.through (annualEdge cableMaker cable .produces) (by decide +kernel) (by decide +kernel)
      (by decide)
  exact ⟨hcable.through (annualEdge applianceMaker cable .consumes) (by decide +kernel)
    (by decide +kernel) (by decide +kernel), by decide⟩

end Astock
