import Astock.Lib.Checked
import Astock.Lib.Loop
import Mathlib.Data.Setoid.Basic

/-!
# Union-find with path halving

A forest over the indices of a list: each holds its parent, and a root holds itself. The search
for a root moves the parent of what it passes to its grandparent.

* `Forest`: what the changes keep, with two ghosts: the root of each index, and a depth that falls
  towards the root. The depth bounds the search (`find_ends`), and no change needs the shape of
  the trees.
* `Classes`: **two indices have one root exactly when the pairs joined so far connect them**
  (`Classes.join`, `joins_end`).
-/

namespace UnionFind

variable {parent : List ℕ} {root depth : ℕ → ℕ} {x : ℕ}

/-- One turn of the search: at a root it stops, else it halves the path. -/
def halve : List ℕ × ℕ → Loop.Turn (List ℕ × ℕ)
  | (parent, x) => match parent[x]? with
    | none => .panic
    | some p =>
      if p = x then .done
      else match parent[p]? with
        | none => .panic
        | some grandparent => .again (parent.set x grandparent, grandparent)

/-- The changed forest and the root of `x`. -/
def find (parent : List ℕ) (x : ℕ) : Option (List ℕ × ℕ) := Loop.run halve parent.length (parent, x)

/-- Join the trees of `a` and `b`. -/
def join (parent : List ℕ) (a b : ℕ) : Option (List ℕ) := do
  let (parent, ra) ← find parent a
  let (parent, rb) ← find parent b
  if ra ≠ rb then Checked.store parent ra rb else some parent

/-- **What the changes keep.** -/
structure Forest (parent : List ℕ) (root depth : ℕ → ℕ) : Prop where
  bound : ∀ i p : ℕ, parent[i]? = some p → p < parent.length
  down : ∀ i p : ℕ, parent[i]? = some p → p = i ∨ depth p < depth i
  same : ∀ i p : ℕ, parent[i]? = some p → root p = root i
  fixed : ∀ i : ℕ, parent[i]? = some i → root i = i

/-- The indices in the forest that are less deep than `x`. -/
def above (n : ℕ) (depth : ℕ → ℕ) (x : ℕ) : Finset ℕ :=
  (Finset.range n).filter fun i => depth i < depth x

theorem above_lt {n y : ℕ} (hy : y < n) (hlt : depth y < depth x) :
    (above n depth y).card < (above n depth x).card := by
  refine Finset.card_lt_card ⟨fun i hi => ?_, fun hsub => ?_⟩
  · obtain ⟨hin, hiy⟩ := Finset.mem_filter.1 hi
    exact Finset.mem_filter.2 ⟨hin, hiy.trans hlt⟩
  · have hmem := hsub (Finset.mem_filter.2 ⟨Finset.mem_range.2 hy, hlt⟩)
    exact lt_irrefl _ (Finset.mem_filter.1 hmem).2

theorem above_card {n : ℕ} (hx : x < n) : (above n depth x).card < n := by
  have hsub : above n depth x ⊂ Finset.range n := by
    refine ⟨Finset.filter_subset _ _, fun hsub => ?_⟩
    exact lt_irrefl _ (Finset.mem_filter.1 (hsub (Finset.mem_range.2 hx))).2
  simpa using Finset.card_lt_card hsub

/-! ## Finding a root -/

/-- Halving a path keeps the forest, with the same ghosts. -/
theorem Forest.set (h : Forest parent root depth) {p grandparent : ℕ} (hp : parent[x]? = some p)
    (hne : p ≠ x) (hg : parent[p]? = some grandparent) :
    Forest (parent.set x grandparent) root depth := by
  have hlt : depth p < depth x := (h.down x p hp).resolve_left hne
  have hle : depth grandparent ≤ depth p := by
    rcases h.down p grandparent hg with heq | hlt'
    · rw [heq]
    · exact hlt'.le
  have hx : x < parent.length := (List.getElem?_eq_some_iff.1 hp).1
  have hroot : root grandparent = root x := (h.same p grandparent hg).trans (h.same x p hp)
  constructor
  · intro i q hq
    rw [List.length_set]
    by_cases hi : x = i
    · rw [← hi, List.getElem?_set_self hx] at hq
      exact Option.some.inj hq ▸ h.bound p grandparent hg
    · exact h.bound i q (by rwa [List.getElem?_set_ne hi] at hq)
  · intro i q hq
    by_cases hi : x = i
    · rw [← hi, List.getElem?_set_self hx] at hq
      obtain rfl := Option.some.inj hq
      rw [← hi]
      exact .inr (by omega)
    · exact h.down i q (by rwa [List.getElem?_set_ne hi] at hq)
  · intro i q hq
    by_cases hi : x = i
    · rw [← hi, List.getElem?_set_self hx] at hq
      rw [← hi, ← Option.some.inj hq, hroot]
    · exact h.same i q (by rwa [List.getElem?_set_ne hi] at hq)
  · intro i hq
    by_cases hi : x = i
    · -- a halved index is not a root: its grandparent is less deep
      rw [← hi, List.getElem?_set_self hx] at hq
      have heq := Option.some.inj hq
      rw [heq] at hle
      omega
    · exact h.fixed i (by rwa [List.getElem?_set_ne hi] at hq)

/-- **The search ends at the root**, in a forest with the same roots. -/
theorem find_ends (h : Forest parent root depth) (hx : x < parent.length) :
    ∃ parent', find parent x = some (parent', root x) ∧ Forest parent' root depth ∧
      parent'.length = parent.length ∧ parent'[root x]? = some (root x) ∧
      ∀ r : ℕ, parent[r]? = some r → parent'[r]? = some r := by
  let I : List ℕ × ℕ → Prop := fun s => Forest s.1 root depth ∧ s.1.length = parent.length ∧
    s.2 < parent.length ∧ root s.2 = root x ∧ ∀ r : ℕ, parent[r]? = some r → s.1[r]? = some r
  have hturn : ∀ s, I s → halve s = .done ∨ ∃ s', halve s = .again s' ∧ I s' ∧
      (above parent.length depth s'.2).card < (above parent.length depth s.2).card := by
    rintro ⟨q, y⟩ ⟨hf, hlen, hy, hroot, hkeep⟩
    dsimp only at hf hlen hy hroot hkeep
    obtain ⟨p, hp⟩ := Checked.getElem?_defined (hlen ▸ hy)
    by_cases hpy : p = y
    · exact .inl (by simp only [halve, hp, if_pos hpy])
    · have hpn := hf.bound y p hp
      obtain ⟨g, hg⟩ := Checked.getElem?_defined hpn
      have hgn := hf.bound p g hg
      have hlt : depth g < depth y := by
        have hlt := (hf.down y p hp).resolve_left hpy
        rcases hf.down p g hg with heq | hlt'
        · rwa [heq]
        · omega
      refine .inr ⟨(q.set y g, g), by simp only [halve, hp, hg, if_neg hpy],
        ⟨hf.set hp hpy hg, by rw [List.length_set, hlen], hlen ▸ hgn, ?_, fun r hr => ?_⟩,
        above_lt (hlen ▸ hgn) hlt⟩
      · exact (hf.same p g hg).trans ((hf.same y p hp).trans hroot)
      · have hry : y ≠ r := by
          rintro rfl
          exact hpy (Option.some.inj (hp.symm.trans (hkeep y hr)))
        rw [List.getElem?_set_ne hry]
        exact hkeep r hr
  obtain ⟨⟨q, y⟩, hrun, ⟨hf, hlen, hy, hroot, hkeep⟩, hdone⟩ := Loop.run_ends
    (fun s : List ℕ × ℕ => (above parent.length depth s.2).card) hturn parent.length (parent, x)
    ⟨h, rfl, hx, rfl, fun _ hr => hr⟩ (above_card hx)
  dsimp only at hf hlen hy hroot hkeep
  obtain ⟨p, hp⟩ := Checked.getElem?_defined (hlen ▸ hy)
  have hpy : p = y := by
    by_contra hpy
    obtain ⟨g, hg⟩ := Checked.getElem?_defined (hf.bound y p hp)
    simp only [halve, hp, hg, if_neg hpy] at hdone
    exact nomatch hdone
  rw [hpy] at hp
  have hry : root x = y := by rw [← hroot, hf.fixed y hp]
  exact ⟨q, by rw [find, hrun, hry], hf, hlen, by rw [hry]; exact hp, hkeep⟩

/-! ## Joining two trees -/

/-- Hang the root `ra` under the root `rb`. -/
theorem Forest.link (h : Forest parent root depth) {ra rb : ℕ} (ha : parent[ra]? = some ra)
    (hb : parent[rb]? = some rb) (hne : ra ≠ rb) : Forest (parent.set ra rb)
      (fun i => if root i = ra then rb else root i)
      (fun i => if root i = ra then depth i + depth rb + 1 else depth i) := by
  have hla : ra < parent.length := (List.getElem?_eq_some_iff.1 ha).1
  have hlb : rb < parent.length := (List.getElem?_eq_some_iff.1 hb).1
  have hra := h.fixed ra ha
  have hrb : root rb ≠ ra := by rw [h.fixed rb hb]; exact hne.symm
  constructor
  · intro i q hq
    rw [List.length_set]
    by_cases hi : ra = i
    · rw [← hi, List.getElem?_set_self hla] at hq
      exact Option.some.inj hq ▸ hlb
    · exact h.bound i q (by rwa [List.getElem?_set_ne hi] at hq)
  · intro i q hq
    by_cases hi : ra = i
    · rw [← hi, List.getElem?_set_self hla] at hq
      obtain rfl := Option.some.inj hq
      rw [← hi]
      rw [if_neg hrb, if_pos hra]
      exact .inr (by omega)
    · rw [List.getElem?_set_ne hi] at hq
      have hroot := h.same i q hq
      rw [hroot]
      refine (h.down i q hq).imp id fun hlt => ?_
      by_cases hia : root i = ra
      · rw [if_pos hia, if_pos hia]
        omega
      · rwa [if_neg hia, if_neg hia]
  · intro i q hq
    by_cases hi : ra = i
    · rw [← hi, List.getElem?_set_self hla] at hq
      rw [← hi, ← Option.some.inj hq, if_neg hrb, if_pos hra, h.fixed rb hb]
    · rw [List.getElem?_set_ne hi] at hq
      rw [h.same i q hq]
  · intro i hq
    by_cases hi : ra = i
    · rw [← hi, List.getElem?_set_self hla] at hq
      exact absurd (Option.some.inj hq).symm hne
    · rw [List.getElem?_set_ne hi] at hq
      rw [h.fixed i hq, if_neg fun hia => hi hia.symm]

/-- What related indices share is shared by a class. -/
theorem constant_of_eqvGen {r : ℕ → ℕ → Prop} (f : ℕ → ℕ) (hf : ∀ a b, r a b → f a = f b) {i j : ℕ}
    (h : Relation.EqvGen r i j) : f i = f j := by
  have hle : Relation.EqvGen.setoid r ≤ Setoid.ker f := Setoid.eqvGen_le hf
  exact hle h

/-- **The trees are the classes of the pairs** joined so far. -/
structure Classes (parent : List ℕ) (pairs : List (ℕ × ℕ)) (root depth : ℕ → ℕ) : Prop where
  forest : Forest parent root depth
  root_iff : ∀ i j, root i = root j ↔ Relation.EqvGen (fun a b => (a, b) ∈ pairs) i j

theorem Classes.range (n : ℕ) : Classes (List.range n) [] id fun _ => 0 where
  forest := by
    have hid : ∀ i p : ℕ, (List.range n)[i]? = some p → i < n ∧ p = i := by
      intro i p hp
      obtain ⟨hi, hp⟩ := List.getElem?_eq_some_iff.1 hp
      rw [List.length_range] at hi
      rw [List.getElem_range] at hp
      exact ⟨hi, hp.symm⟩
    constructor
    · intro i p hp
      obtain ⟨hi, rfl⟩ := hid i p hp
      rwa [List.length_range]
    · exact fun i p hp => .inl (hid i p hp).2
    · exact fun i p hp => (hid i p hp).2
    · exact fun _ _ => rfl
  root_iff := by
    intro i j
    constructor
    · rintro rfl
      exact .refl _
    · exact constant_of_eqvGen id fun _ _ hr => absurd hr List.not_mem_nil

/-- **A join ends and adds its pair to the classes.** -/
theorem Classes.join {pairs : List (ℕ × ℕ)} {a b : ℕ} (h : Classes parent pairs root depth)
    (ha : a < parent.length) (hb : b < parent.length) : ∃ parent' root' depth',
    join parent a b = some parent' ∧ parent'.length = parent.length ∧
      Classes parent' (pairs ++ [(a, b)]) root' depth' := by
  obtain ⟨q, hq, hqf, hqlen, hqa, -⟩ := find_ends h.forest ha
  obtain ⟨q', hq', hqf', hqlen', hqb, hkeep⟩ := find_ends hqf (hqlen ▸ hb)
  have hqa := hkeep _ hqa
  have hmono : ∀ i j, Relation.EqvGen (fun a b => (a, b) ∈ pairs) i j →
      Relation.EqvGen (fun c d => (c, d) ∈ pairs ++ [(a, b)]) i j :=
    fun i j hij => hij.mono fun c d hcd => List.mem_append_left _ hcd
  have hnew : Relation.EqvGen (fun c d => (c, d) ∈ pairs ++ [(a, b)]) a b :=
    .rel _ _ (List.mem_append_right _ List.mem_cons_self)
  -- roots that are equal for the old pairs and for the new one are equal for all
  have hcomplete : ∀ root' : ℕ → ℕ, (∀ i j, root i = root j → root' i = root' j) →
      root' a = root' b → ∀ i j, Relation.EqvGen (fun c d => (c, d) ∈ pairs ++ [(a, b)]) i j →
        root' i = root' j := by
    intro root' hold hab i j hij
    refine constant_of_eqvGen root' (fun c d hr => ?_) hij
    rcases List.mem_append.1 hr with hr | hr
    · exact hold c d ((h.root_iff c d).2 (.rel _ _ hr))
    · obtain ⟨rfl, rfl⟩ := Prod.mk.inj (List.mem_singleton.1 hr)
      exact hab
  by_cases hroot : root a = root b
  · refine ⟨q', root, depth, ?_, hqlen'.trans hqlen, hqf', fun i j => ⟨fun hij => ?_, ?_⟩⟩
    · simp [UnionFind.join, hq, hq', hroot]
    · exact hmono i j ((h.root_iff i j).1 hij)
    · exact hcomplete root (fun _ _ => id) hroot i j
  · have hla : root a < q'.length := (List.getElem?_eq_some_iff.1 hqa).1
    refine ⟨q'.set (root a) (root b), _, _, ?_, ?_, hqf'.link hqa hqb hroot,
      fun i j => ⟨fun hij => ?_, ?_⟩⟩
    · simp [UnionFind.join, hq, hq', hroot, Checked.store, hla]
    · rw [List.length_set, hqlen', hqlen]
    · have hconn : ∀ {i j}, root i = root j →
          Relation.EqvGen (fun c d => (c, d) ∈ pairs ++ [(a, b)]) i j :=
        fun hij => hmono _ _ ((h.root_iff _ _).1 hij)
      by_cases hi : root i = root a
      · by_cases hj : root j = root a
        · exact hconn (hi.trans hj.symm)
        · rw [if_pos hi, if_neg hj] at hij
          exact (hconn hi).trans _ _ _ (hnew.trans _ _ _ (hconn hij))
      · by_cases hj : root j = root a
        · rw [if_neg hi, if_pos hj] at hij
          exact (hconn hij).trans _ _ _ ((hnew.symm _ _).trans _ _ _ (hconn hj.symm))
        · rw [if_neg hi, if_neg hj] at hij
          exact hconn hij
    · refine hcomplete (fun i => if root i = root a then root b else root i) (fun i j hij => ?_) ?_ i j
      · rw [hij]
      · rw [if_pos rfl, if_neg fun hba => hroot hba.symm]

/-- **A list of joins ends with the classes of its pairs.** -/
theorem joins_end {n : ℕ} {pairs : List (ℕ × ℕ)} (hpairs : ∀ p ∈ pairs, p.1 < n ∧ p.2 < n) :
    ∃ parent root depth,
      pairs.foldlM (fun parent p => UnionFind.join parent p.1 p.2) (List.range n) = some parent ∧
        parent.length = n ∧ Classes parent pairs root depth := by
  have hrun : ∀ (rest done : List (ℕ × ℕ)) parent root depth, parent.length = n →
      Classes parent done root depth → (∀ p ∈ rest, p.1 < n ∧ p.2 < n) →
      ∃ parent' root' depth',
        rest.foldlM (fun parent p => UnionFind.join parent p.1 p.2) parent = some parent' ∧
          parent'.length = n ∧ Classes parent' (done ++ rest) root' depth' := by
    intro rest
    induction rest with
    | nil =>
      intro done parent root depth hlen h _
      exact ⟨parent, root, depth, rfl, hlen, by rwa [List.append_nil]⟩
    | cons p rest ih =>
      intro done parent root depth hlen h hrest
      obtain ⟨⟨ha, hb⟩, hrest⟩ := List.forall_mem_cons.1 hrest
      obtain ⟨q, root', depth', hq, hqlen, hclasses⟩ := h.join (hlen ▸ ha) (hlen ▸ hb)
      obtain ⟨parent', root'', depth'', hrun, hlen', hend⟩ :=
        ih (done ++ [p]) q root' depth' (hqlen.trans hlen) hclasses hrest
      refine ⟨parent', root'', depth'', ?_, hlen', by rwa [List.append_assoc] at hend⟩
      rw [List.foldlM_cons, hq]
      exact hrun
  exact hrun pairs [] (List.range n) id (fun _ => 0) List.length_range (Classes.range n) hpairs

end UnionFind
