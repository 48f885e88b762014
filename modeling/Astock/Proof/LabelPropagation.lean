import Astock.Lib.Run
import Astock.Proof.Components

/-!
# Labels and their communities

* `AtHome`: labels are nodes of the component of the node that carries them (`atHome_adopt`).
* `named_adopt_iff`: **a visit leaves every label to a node that carries it**, unless the node gives up
  an id that others carry.
* `labelLoop_run`: the loop is a run of visits.
* `labelLoop_stops`: where it stops, every node has the label that its neighbours prefer.
* `labels_name_communities`, `label_without_member`: what becomes of this in whole runs.
-/

namespace Astock

open Best Run

variable {F : Type} {nodes : List Node} {edges : List (Edge F)} {labels : Labels} {id : String}

/-! ## The most frequent label -/

/-- A label that no other one outvotes. -/
structure Preferred (votes : List String) (label : String) : Prop where
  mem : label ∈ votes
  max : ∀ other ∈ votes, votes.count other < votes.count label ∨
    votes.count other = votes.count label ∧ label ≤ other

theorem outvotes_improves (votes : List String) :
    Improves (fun label => toLex (votes.count label, OrderDual.toDual label)) (outvotes votes) where
  up a b h := by
    rw [outvotes, Bool.or_eq_true, Bool.and_eq_true, decide_eq_true_eq, beq_iff_eq, decide_eq_true_eq] at h
    rw [Prod.Lex.toLex_le_toLex]
    rcases h with h | ⟨h, hab⟩
    · exact .inl h
    · exact .inr ⟨h, le_of_lt hab⟩
  down a b h := by
    rw [outvotes, Bool.or_eq_false_iff, Bool.and_eq_false_iff, decide_eq_false_iff_not, beq_eq_false_iff_ne,
      decide_eq_false_iff_not] at h
    obtain ⟨hless, hsmall⟩ := h
    rw [Prod.Lex.toLex_le_toLex]
    rcases lt_or_eq_of_le (not_lt.1 hless) with h | h
    · exact .inl h
    · exact .inr ⟨h, not_lt.1 (hsmall.resolve_left (not_not.2 h.symm))⟩

theorem bestLabel_preferred {votes : List String} {label : String} (h : bestLabel votes = some label) :
    Preferred votes label := by
  obtain ⟨hmem, hmax⟩ := (outvotes_improves votes).isBest h
  refine ⟨List.mem_dedup.1 hmem, fun other hother => ?_⟩
  rcases (Prod.Lex.toLex_le_toLex ..).1 (hmax other (List.mem_dedup.2 hother)) with hlt | ⟨heq, hle⟩
  · exact .inl hlt
  · exact .inr ⟨heq, hle⟩

theorem bestLabel_eq_none {votes : List String} : bestLabel votes = none ↔ votes = [] := by
  rw [bestLabel, pick_eq_none_iff, List.dedup_eq_nil]

/-! ## Visits -/

/-- A visit: the node adopts the label that its neighbours prefer. -/
def adoptLabel (edges : List (Edge F)) (labels : Labels) (id : String) : Labels :=
  (labelStep edges (labels, false) id).1

theorem adoptLabel_eq (edges : List (Edge F)) (labels : Labels) (id : String) :
    adoptLabel edges labels id = match bestLabel (votes edges labels id) with
      | some label => Function.update labels id (some label)
      | none => labels := by
  rw [adoptLabel, labelStep]
  cases hbest : bestLabel (votes edges labels id) with
  | none => rfl
  | some label =>
    by_cases hsame : labels id = some label
    · simp [hsame]
    · simp [hsame]

/-- Every label is carried by the node that it names. -/
def Named (labels : Labels) : Prop := ∀ id label, labels id = some label → labels label = some label

/-- A visit takes its own id from a node whose id another node carries. -/
def GivesUp (edges : List (Edge F)) (labels : Labels) (id : String) : Prop :=
  (∃ other, other ≠ id ∧ labels other = some id) ∧
    ∃ label, label ≠ id ∧ bestLabel (votes edges labels id) = some label

/-- **One visit**: the labels keep their nodes, unless the node gives up an id that others carry. -/
theorem named_adopt_iff (h : Named labels) (id : String) :
    Named (adoptLabel edges labels id) ↔ ¬ GivesUp edges labels id := by
  rw [adoptLabel_eq]
  cases hbest : bestLabel (votes edges labels id) with
  | none =>
    refine iff_of_true h ?_
    rintro ⟨-, label, -, hsome⟩
    rw [hbest] at hsome
    cases hsome
  | some label =>
    obtain ⟨neighbor, -, hneighbor⟩ := List.mem_filterMap.1 (bestLabel_preferred hbest).mem
    have hlabel : labels label = some label := h neighbor label hneighbor
    simp only
    constructor
    · rintro hnamed ⟨⟨other, hother, hcarries⟩, label', hne, hbest'⟩
      obtain rfl := Option.some.inj (hbest.symm.trans hbest')
      have hkept : Function.update labels id (some label) other = some id := by
        rw [Function.update_of_ne hother, hcarries]
      have hself := hnamed other id hkept
      rw [Function.update_self] at hself
      exact hne (Option.some.inj hself)
    · intro hkeeps x y hx
      by_cases hxid : x = id
      · subst hxid
        rw [Function.update_self] at hx
        obtain rfl := Option.some.inj hx
        by_cases hself : label = x
        · rw [hself, Function.update_self]
        · rw [Function.update_of_ne hself, hlabel]
      · rw [Function.update_of_ne hxid] at hx
        by_cases hyid : y = id
        · -- another node carries the id, so the visit must leave it where it is
          subst hyid
          have hsame : label = y := by
            by_contra hne
            exact hkeeps ⟨⟨x, hxid, hx⟩, label, hne, hbest⟩
          rw [hsame, Function.update_self]
        · rw [Function.update_of_ne hyid]
          exact h x y hx

/-! ## Components -/

/-- The listed nodes have labels, and these are nodes of their components. -/
structure AtHome (nodes : List Node) (edges : List (Edge F)) (labels : Labels) : Prop where
  listed : ∀ id, labels id ≠ none ↔ id ∈ nodes.map Node.id
  home : ∀ id label, labels id = some label →
    label ∈ nodes.map Node.id ∧ (linkGraph nodes edges).Reachable id label

theorem atHome_own : AtHome nodes edges (ownLabels nodes) where
  listed id := by simp [ownLabels]
  home id label h := by
    rw [ownLabels] at h
    split_ifs at h with hid
    obtain rfl := Option.some.inj h
    exact ⟨hid, .refl _⟩

theorem mem_neighbors {neighbor : String} : neighbor ∈ neighbors edges id ↔
    ∃ e ∈ edges, e.src = id ∧ e.dst = neighbor ∨ e.dst = id ∧ e.src = neighbor := by
  simp only [neighbors, List.mem_flatMap, List.mem_append]
  refine exists_congr fun e => and_congr_right fun _ => ?_
  by_cases hsrc : e.src = id <;> by_cases hdst : e.dst = id <;> simp [hsrc, hdst, eq_comm]

/-- Listed neighbours are in one component. -/
theorem reachable_neighbor {neighbor : String} (hid : id ∈ nodes.map Node.id)
    (hneighbor : neighbor ∈ nodes.map Node.id) (h : neighbor ∈ neighbors edges id) :
    (linkGraph nodes edges).Reachable id neighbor := by
  by_cases heq : id = neighbor
  · rw [heq]
  · refine SimpleGraph.Adj.reachable ((SimpleGraph.fromRel_adj _ _ _).2 ⟨heq, ?_⟩)
    obtain ⟨e, he, ⟨hsrc, hdst⟩ | ⟨hdst, hsrc⟩⟩ := mem_neighbors.1 h
    · exact .inl ⟨hid, hneighbor, e, he, hsrc, hdst⟩
    · exact .inr ⟨hneighbor, hid, e, he, hsrc, hdst⟩

theorem atHome_adopt (h : AtHome nodes edges labels) (hid : id ∈ nodes.map Node.id) :
    AtHome nodes edges (adoptLabel edges labels id) := by
  rw [adoptLabel_eq]
  cases hbest : bestLabel (votes edges labels id) with
  | none => exact h
  | some label =>
    obtain ⟨neighbor, hneighbor, hlabel⟩ := List.mem_filterMap.1 (bestLabel_preferred hbest).mem
    obtain ⟨hlisted, hreach⟩ := h.home neighbor label hlabel
    have hmem : neighbor ∈ nodes.map Node.id := (h.listed neighbor).1 (by rw [hlabel]; simp)
    refine ⟨fun x => ?_, fun x y hx => ?_⟩
    · by_cases hx : x = id
      · subst hx
        simp [hid]
      · simp only [Function.update_of_ne hx]
        exact h.listed x
    · by_cases hxid : x = id
      · subst hxid
        simp only [Function.update_self] at hx
        obtain rfl := Option.some.inj hx
        exact ⟨hlisted, (reachable_neighbor hid hmem hneighbor).trans hreach⟩
      · simp only [Function.update_of_ne hxid] at hx
        exact h.home x y hx

/-! ## Rounds -/

theorem foldl_labelStep (order : List String) : ∀ (labels : Labels) (changed : Bool),
    (order.foldl (labelStep edges) (labels, changed)).1 = run (adoptLabel edges) labels order := by
  induction order with
  | nil => exact fun _ _ => rfl
  | cons id order ih =>
    intro labels changed
    have hstep : (labelStep edges (labels, changed) id).1 = adoptLabel edges labels id := by
      rw [adoptLabel, labelStep, labelStep]
      cases bestLabel (votes edges labels id) with
      | none => rfl
      | some label => by_cases hsame : labels id = some label <;> simp [hsame]
    rw [List.foldl_cons, run_cons, ← hstep]
    exact ih _ _

/-- A round that changes nothing finds every node with the label that its neighbours prefer. -/
theorem unchanged_round (order : List String) : ∀ (labels : Labels) (changed : Bool),
    (order.foldl (labelStep edges) (labels, changed)).2 = false →
      changed = false ∧ run (adoptLabel edges) labels order = labels ∧
        ∀ id ∈ order, ∀ label, bestLabel (votes edges labels id) = some label →
          labels id = some label := by
  induction order with
  | nil => exact fun _ _ h => ⟨h, rfl, by simp⟩
  | cons id order ih =>
    intro labels changed h
    rw [List.foldl_cons] at h
    obtain ⟨hflag, hsame, hrest⟩ := ih (labelStep edges (labels, changed) id).1
      (labelStep edges (labels, changed) id).2 h
    have hstay : ∀ label, bestLabel (votes edges labels id) = some label → labels id = some label := by
      intro label hbest
      by_contra hne
      simp [labelStep, hbest, hne] at hflag
    have hstep : labelStep edges (labels, changed) id = (labels, changed) := by
      cases hbest : bestLabel (votes edges labels id) with
      | none => simp [labelStep, hbest]
      | some label => simp [labelStep, hbest, hstay label hbest]
    rw [hstep] at hflag hsame hrest
    have hadopt : adoptLabel edges labels id = labels := by
      rw [adoptLabel_eq]
      cases hbest : bestLabel (votes edges labels id) with
      | none => rfl
      | some label =>
        simp only
        rw [← hstay label hbest, Function.update_eq_self]
    refine ⟨hflag, ?_, List.forall_mem_cons.2 ⟨hstay, hrest⟩⟩
    rw [run_cons, hadopt]
    exact hsame

/-- The visits that the loop makes. -/
def labelVisits (edges : List (Edge F)) (order : List String) : ℕ → Labels → List String
  | 0, _ => []
  | rounds + 1, labels =>
    let (labels, changed) := order.foldl (labelStep edges) (labels, false)
    order ++ if changed then labelVisits edges order rounds labels else []

/-- The loop stops because a round changes nothing. -/
def labelStops (edges : List (Edge F)) (order : List String) : ℕ → Labels → Prop
  | 0, _ => False
  | rounds + 1, labels =>
    let (labels, changed) := order.foldl (labelStep edges) (labels, false)
    changed = true → labelStops edges order rounds labels

theorem labelLoop_succ (order : List String) (rounds : ℕ) (labels : Labels) :
    labelLoop edges order (rounds + 1) labels =
      if (order.foldl (labelStep edges) (labels, false)).2 then
        labelLoop edges order rounds (run (adoptLabel edges) labels order)
      else run (adoptLabel edges) labels order := by
  rw [← foldl_labelStep order labels false]
  rfl

theorem labelVisits_succ (order : List String) (rounds : ℕ) (labels : Labels) :
    labelVisits edges order (rounds + 1) labels = order ++
      if (order.foldl (labelStep edges) (labels, false)).2 then
        labelVisits edges order rounds (run (adoptLabel edges) labels order)
      else [] := by
  rw [← foldl_labelStep order labels false]
  rfl

theorem labelStops_succ (order : List String) (rounds : ℕ) (labels : Labels) :
    labelStops edges order (rounds + 1) labels ↔
      ((order.foldl (labelStep edges) (labels, false)).2 = true →
        labelStops edges order rounds (run (adoptLabel edges) labels order)) := by
  rw [← foldl_labelStep order labels false]
  exact Iff.rfl

/-- **The loop is a run** of its visits. -/
theorem labelLoop_run (order : List String) : ∀ (rounds : ℕ) (labels : Labels),
    labelLoop edges order rounds labels =
      run (adoptLabel edges) labels (labelVisits edges order rounds labels) := by
  intro rounds
  induction rounds with
  | zero => exact fun _ => rfl
  | succ rounds ih =>
    intro labels
    rw [labelLoop_succ, labelVisits_succ, run_append]
    cases (order.foldl (labelStep edges) (labels, false)).2 with
    | true => exact ih _
    | false => rfl

theorem mem_labelVisits {order : List String} : ∀ {rounds : ℕ} {labels : Labels},
    id ∈ labelVisits edges order rounds labels → id ∈ order := by
  intro rounds
  induction rounds with
  | zero => exact fun h => absurd h List.not_mem_nil
  | succ rounds ih =>
    intro labels h
    rw [labelVisits_succ] at h
    rcases List.mem_append.1 h with h | h
    · exact h
    · split_ifs at h
      · exact ih h
      · exact absurd h List.not_mem_nil

/-- **Where the loop stops**, no node would change its label. -/
theorem labelLoop_stops (order : List String) : ∀ (rounds : ℕ) (labels : Labels),
    labelStops edges order rounds labels → ∀ id ∈ order, ∀ label,
      bestLabel (votes edges (labelLoop edges order rounds labels) id) = some label →
        labelLoop edges order rounds labels id = some label := by
  intro rounds
  induction rounds with
  | zero => exact fun _ h => h.elim
  | succ rounds ih =>
    intro labels hstops
    rw [labelStops_succ] at hstops
    rw [labelLoop_succ]
    cases hchanged : (order.foldl (labelStep edges) (labels, false)).2 with
    | true =>
      rw [if_pos rfl]
      exact ih _ (hstops hchanged)
    | false =>
      obtain ⟨-, hsame, hprefer⟩ := unchanged_round order labels false hchanged
      rw [if_neg Bool.false_ne_true, hsame]
      exact hprefer

/-! ## The result -/

/-- The visits of `label_propagation`. -/
def propagationVisits (nodes : List Node) (edges : List (Edge F)) (maxRounds : ℕ) : List String :=
  labelVisits edges (labelOrder nodes) maxRounds (ownLabels nodes)

theorem mem_labelOrder : id ∈ labelOrder nodes ↔ id ∈ nodes.map Node.id :=
  List.mem_insertionSort _

theorem named_own : Named (ownLabels nodes) := by
  intro id label h
  have hown := h
  rw [ownLabels] at hown
  split_ifs at hown
  obtain rfl := Option.some.inj hown
  exact h

theorem atHome_propagation (nodes : List Node) (edges : List (Edge F)) (maxRounds : ℕ) :
    AtHome nodes edges (labelPropagation nodes edges maxRounds) := by
  rw [labelPropagation, labelLoop_run]
  have hvisits : ∀ id ∈ labelVisits edges (labelOrder nodes) maxRounds (ownLabels nodes),
      id ∈ nodes.map Node.id := fun id hid => mem_labelOrder.1 (mem_labelVisits hid)
  generalize labelVisits edges (labelOrder nodes) maxRounds (ownLabels nodes) = visits at hvisits
  have hstart : AtHome nodes edges (ownLabels nodes) := atHome_own
  generalize ownLabels nodes = labels at hstart
  induction visits generalizing labels with
  | nil => exact hstart
  | cons id visits ih =>
    obtain ⟨hid, hrest⟩ := List.forall_mem_cons.1 hvisits
    exact ih hrest _ (atHome_adopt hstart hid)

/-- **Labels and their communities.** Every label is a node of the component, and where the loop stops
every node has the one that its neighbours prefer. A label is carried by the node it names after every
visit exactly if no visit makes a node give up an id that others carry. -/
theorem labels_name_communities (nodes : List Node) (edges : List (Edge F)) (maxRounds : ℕ) :
    (∀ id label, labelPropagation nodes edges maxRounds id = some label →
      label ∈ nodes.map Node.id ∧ (linkGraph nodes edges).Reachable id label) ∧
    (labelStops edges (labelOrder nodes) maxRounds (ownLabels nodes) → ∀ id ∈ nodes.map Node.id,
      (∃ neighbor ∈ neighbors edges id, neighbor ∈ nodes.map Node.id) →
        ∃ label, labelPropagation nodes edges maxRounds id = some label ∧
          Preferred (votes edges (labelPropagation nodes edges maxRounds) id) label) ∧
    (Along (adoptLabel edges) (fun labels id => Named (adoptLabel edges labels id)) (ownLabels nodes)
        (propagationVisits nodes edges maxRounds) ↔
      Along (adoptLabel edges) (fun labels id => ¬ GivesUp edges labels id) (ownLabels nodes)
        (propagationVisits nodes edges maxRounds)) ∧
    (Along (adoptLabel edges) (fun labels id => ¬ GivesUp edges labels id) (ownLabels nodes)
        (propagationVisits nodes edges maxRounds) →
      Named (labelPropagation nodes edges maxRounds)) := by
  have hhome := atHome_propagation nodes edges maxRounds
  refine ⟨hhome.home, ?_, ?_, ?_⟩
  · rintro hstops id hid ⟨neighbor, hneighbor, hlisted⟩
    obtain ⟨vote, hvote⟩ := Option.ne_none_iff_exists'.1 ((hhome.listed neighbor).2 hlisted)
    have hvotes : votes edges (labelPropagation nodes edges maxRounds) id ≠ [] :=
      List.ne_nil_of_mem (List.mem_filterMap.2 ⟨neighbor, hneighbor, hvote⟩)
    obtain ⟨label, hbest⟩ := Option.ne_none_iff_exists'.1 (fun h => hvotes (bestLabel_eq_none.1 h))
    refine ⟨label, ?_, bestLabel_preferred hbest⟩
    exact labelLoop_stops _ maxRounds _ hstops id (mem_labelOrder.2 hid) label hbest
  · exact along_iff (I := Named) (fun _ _ hnamed _ => hnamed) (fun _ id h => named_adopt_iff h id) _ _
      named_own
  · intro hkeeps
    rw [labelPropagation, labelLoop_run]
    exact @run_invariant_along _ _ (adoptLabel edges) Named _
      (fun _ id hkeep h => (named_adopt_iff h id).2 hkeep) _ _ hkeeps named_own

/-- A node of the graph of the example. -/
def leaf (id : String) : Node where
  id
  kind := .company
  name := id

/-- An edge of the graph of the example. -/
def link (src dst : String) : Edge ℚ where
  src
  dst
  relation := .supplies
  weight := 1
  sourceName := ""
  confidence := 1

/-- The second node adopts the label of the fourth, and the fourth then gives it up: the label 4 names a
node that does not carry it. -/
theorem label_without_member : ¬ ∀ (nodes : List Node) (edges : List (Edge ℚ)) (maxRounds : ℕ),
    (nodes.map Node.id).Nodup → Named (labelPropagation nodes edges maxRounds) := by
  intro h
  have hnamed := h (["1", "2", "3", "4", "5", "6"].map leaf)
    [link "2" "4", link "1" "4", link "2" "6", link "2" "5", link "1" "3"] 50 (by decide)
  have hsecond := hnamed "2" "4" (by decide)
  revert hsecond
  decide

end Astock
