import Mathlib.Tactic

/-!
# Loops that may not end

A `while` loop whose body stops, goes on with another state or panics.

* `run`: the loop, within a number of turns. It is missing after a panic, and when the turns do
  not suffice.
* `run_ends`: **a loop whose turns keep an invariant and lower a variant ends**.
-/

namespace Loop

inductive Turn (σ : Type)
  | done
  | again (s : σ)
  | panic

variable {σ : Type} {turn : σ → Turn σ}

def run (turn : σ → Turn σ) : ℕ → σ → Option σ
  | 0, _ => none
  | n + 1, s => match turn s with
    | .done => some s
    | .again s' => run turn n s'
    | .panic => none

theorem run_done {s : σ} (h : turn s = .done) (n : ℕ) : run turn (n + 1) s = some s := by
  simp only [run, h]

theorem run_again {s s' : σ} (h : turn s = .again s') (n : ℕ) :
    run turn (n + 1) s = run turn n s' := by
  simp only [run, h]

theorem run_ends {I : σ → Prop} (variant : σ → ℕ)
    (hturn : ∀ s, I s → turn s = .done ∨
      ∃ s', turn s = .again s' ∧ I s' ∧ variant s' < variant s) :
    ∀ n s, I s → variant s < n → ∃ t, run turn n s = some t ∧ I t ∧ turn t = .done := by
  intro n
  induction n with
  | zero => intro s _ hn; omega
  | succ n ih =>
    intro s hs hn
    rcases hturn s hs with hdone | ⟨s', hagain, hs', hlt⟩
    · exact ⟨s, run_done hdone n, hs, hdone⟩
    · obtain ⟨t, ht, hI, hend⟩ := ih s' hs' (by omega)
      exact ⟨t, by rw [run_again hagain, ht], hI, hend⟩

end Loop

/-!
## Depth-first enumeration

A stack of items is worked off from the top. An item has children: results, and further items that go on
the stack.

* `Leaf`: the results below an item.
* `run_items`: the items on top of the stack are worked off, whatever is below them.
* `run_leaves`: **the loop ends with every result below the root**, and each once if the children of an
  item share none (`Apart`).
-/

namespace Branching

variable {ι ω : Type} {children : ι → List (ω ⊕ ι)} {item : ι} {w : ω} {d : ℕ} {depth : ι → ℕ}

/-- The stack, with its top first, and the results so far. -/
structure State (ι ω : Type) where
  frontier : List ι
  output : List ω

def place (s : State ι ω) : ω ⊕ ι → State ι ω
  | .inl w => { s with output := s.output ++ [w] }
  | .inr item => { s with frontier := item :: s.frontier }

def turn (children : ι → List (ω ⊕ ι)) (s : State ι ω) : Loop.Turn (State ι ω) :=
  match s.frontier with
  | [] => .done
  | item :: frontier => .again ((children item).foldl place ⟨frontier, s.output⟩)

/-- The results below an item. -/
inductive Leaf (children : ι → List (ω ⊕ ι)) : ι → ω → Prop
  | here {item : ι} {w : ω} : .inl w ∈ children item → Leaf children item w
  | there {item child : ι} {w : ω} : .inr child ∈ children item → Leaf children child w →
      Leaf children item w

/-- They are enumerated by recursion to a depth. -/
def leaves (children : ι → List (ω ⊕ ι)) : ℕ → ι → List ω
  | 0, _ => []
  | d + 1, item => (children item).flatMap fun
    | .inl w => [w]
    | .inr child => leaves children d child

/-! ### The recursion -/

theorem mem_leaves (hdepth : ∀ item child, .inr child ∈ children item → depth child < depth item)
    (hd : depth item < d) : w ∈ leaves children d item ↔ Leaf children item w := by
  induction d generalizing item with
  | zero => omega
  | succ d ih =>
    rw [leaves, List.mem_flatMap]
    constructor
    · rintro ⟨child, hchild, hw⟩
      cases child with
      | inl v =>
        rw [List.mem_singleton.1 hw]
        exact .here hchild
      | inr child =>
        have hlt := hdepth item child hchild
        exact .there hchild ((ih (by omega)).1 hw)
    · intro h
      cases h with
      | here hmem => exact ⟨_, hmem, List.mem_singleton_self _⟩
      | there hmem hleaf =>
        have hlt := hdepth item _ hmem
        exact ⟨_, hmem, (ih (by omega)).2 hleaf⟩

/-- The results of a child. -/
def Under (children : ι → List (ω ⊕ ι)) : ω ⊕ ι → ω → Prop
  | .inl v, w => v = w
  | .inr child, w => Leaf children child w

/-- The children of an item share no result. -/
structure Apart (children : ι → List (ω ⊕ ι)) : Prop where
  nodup : ∀ item, (children item).Nodup
  disjoint : ∀ item, ∀ a ∈ children item, ∀ b ∈ children item, ∀ w,
    Under children a w → Under children b w → a = b

theorem nodup_leaves (hdepth : ∀ item child, .inr child ∈ children item → depth child < depth item)
    (happart : Apart children) (hd : depth item < d) : (leaves children d item).Nodup := by
  induction d generalizing item with
  | zero => omega
  | succ d ih =>
    -- what the recursion lists for a child are the results of the child
    have hunder : ∀ c ∈ children item, ∀ w, w ∈ (match c with
        | .inl w => [w]
        | .inr child => leaves children d child) → Under children c w := by
      intro c hc w hw
      cases c with
      | inl v => exact (List.mem_singleton.1 hw).symm
      | inr child =>
        have hlt := hdepth item child hc
        exact (mem_leaves hdepth (by omega)).1 hw
    rw [leaves, List.nodup_flatMap]
    constructor
    · intro c hc
      cases c with
      | inl v => exact List.nodup_singleton v
      | inr child =>
        have hlt := hdepth item child hc
        exact ih (by omega)
    · refine (happart.nodup item).pairwise_of_forall_ne fun a ha b hb hab => ?_
      intro w hwa hwb
      exact hab (happart.disjoint item a ha b hb w (hunder a ha w hwa) (hunder b hb w hwb))

/-- The results among the children first, and then what is below the items among them. -/
theorem flatMap_children (d : ℕ) (cs : List (ω ⊕ ι)) :
    (cs.flatMap fun
      | .inl w => [w]
      | .inr child => leaves children d child).Perm
    (cs.filterMap Sum.getLeft? ++ (cs.filterMap Sum.getRight?).reverse.flatMap (leaves children d)) := by
  induction cs with
  | nil => exact .refl _
  | cons c cs ih =>
    rw [List.flatMap_cons]
    cases c with
    | inl w => exact List.Perm.cons w ih
    | inr child =>
      have hlast : ((Sum.inr child :: cs : List (ω ⊕ ι)).filterMap Sum.getRight?).reverse.flatMap
          (leaves children d) = (cs.filterMap Sum.getRight?).reverse.flatMap (leaves children d) ++
            leaves children d child := by
        simp
      rw [hlast, List.filterMap_cons_none rfl, ← List.append_assoc]
      exact (List.perm_append_comm).trans (ih.append_right _)

/-! ### The loop -/

theorem foldl_place (cs : List (ω ⊕ ι)) (s : State ι ω) :
    cs.foldl place s = ⟨(cs.filterMap Sum.getRight?).reverse ++ s.frontier,
      s.output ++ cs.filterMap Sum.getLeft?⟩ := by
  induction cs generalizing s with
  | nil => simp
  | cons c cs ih =>
    rw [List.foldl_cons, ih]
    cases c <;> simp [place, List.filterMap_cons]

/-- The loop works an item off: it adds the results of the recursion. -/
def WorksOff (children : ι → List (ω ⊕ ι)) (items : List ι) (results : List ω) : Prop :=
  ∀ frontier output, ∃ k produced, produced.Perm results ∧
    ∀ n, Loop.run (turn children) (k + n) ⟨items ++ frontier, output⟩ =
      Loop.run (turn children) n ⟨frontier, output ++ produced⟩

/-- **The items on top of the stack** are worked off one after the other. -/
theorem run_items {items : List ι} {results : ι → List ω}
    (h : ∀ item ∈ items, WorksOff children [item] (results item)) :
    WorksOff children items (items.flatMap results) := by
  intro frontier
  induction items with
  | nil =>
    intro output
    exact ⟨0, [], .refl _, fun n => by simp⟩
  | cons item items ih =>
    intro output
    obtain ⟨k, produced, hperm, hrun⟩ := h item List.mem_cons_self (items ++ frontier) output
    obtain ⟨k', produced', hperm', hrun'⟩ :=
      ih (fun i hi => h i (List.mem_cons_of_mem _ hi)) (output ++ produced)
    refine ⟨k + k', produced ++ produced', hperm.append hperm', fun n => ?_⟩
    have hfirst := hrun (k' + n)
    rw [Nat.add_assoc, ← List.append_assoc, ← hrun', ← hfirst]
    rfl

theorem run_item (hdepth : ∀ item child, .inr child ∈ children item → depth child < depth item)
    (hd : depth item < d) : WorksOff children [item] (leaves children d item) := by
  induction d generalizing item with
  | zero => omega
  | succ d ih =>
    have hpushed : ∀ child ∈ ((children item).filterMap Sum.getRight?).reverse,
        WorksOff children [child] (leaves children d child) := by
      intro child hchild
      obtain ⟨c, hc, heq⟩ := List.mem_filterMap.1 (List.mem_reverse.1 hchild)
      obtain rfl : c = .inr child := Sum.getRight?_eq_some_iff.1 heq
      have hlt := hdepth item child hc
      exact ih (by omega)
    intro frontier output
    obtain ⟨k, produced, hperm, hrun⟩ := run_items hpushed frontier
      (output ++ (children item).filterMap Sum.getLeft?)
    refine ⟨k + 1, (children item).filterMap Sum.getLeft? ++ produced, ?_, fun n => ?_⟩
    · rw [leaves]
      exact (hperm.append_left _).trans (flatMap_children d (children item)).symm
    · have hturn : turn children ⟨[item] ++ frontier, output⟩ =
          .again ⟨((children item).filterMap Sum.getRight?).reverse ++ frontier,
            output ++ (children item).filterMap Sum.getLeft?⟩ := by
        rw [← foldl_place (children item) ⟨frontier, output⟩]
        rfl
      rw [Nat.add_right_comm, Loop.run_again hturn, hrun, List.append_assoc]

/-- **The loop ends** with the results below the root. -/
theorem run_leaves (root : ι)
    (hdepth : ∀ item child, .inr child ∈ children item → depth child < depth item) :
    ∃ k output, (∀ n, k < n → Loop.run (turn children) n ⟨[root], []⟩ = some ⟨[], output⟩) ∧
      (∀ w, w ∈ output ↔ Leaf children root w) ∧ (Apart children → output.Nodup) := by
  obtain ⟨k, produced, hperm, hrun⟩ := run_item hdepth (Nat.lt_succ_self (depth root)) [] []
  refine ⟨k, produced, fun n hn => ?_, fun w => ?_, fun happart => ?_⟩
  · obtain ⟨m, rfl⟩ : ∃ m, n = k + (m + 1) := ⟨n - k - 1, by omega⟩
    have hlast := hrun (m + 1)
    rw [List.nil_append] at hlast
    exact hlast.trans (Loop.run_done rfl m)
  · rw [hperm.mem_iff]
    exact mem_leaves hdepth (Nat.lt_succ_self _)
  · exact hperm.nodup_iff.2 (nodup_leaves hdepth happart (Nat.lt_succ_self _))

end Branching
