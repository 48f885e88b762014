import Mathlib.Tactic

/-!
# Indices and slices that can be out of range

The operations of Rust slices that panic out of range, as values that are then missing, and loops
over them.

* `mapM_eq`, `mapM_defined`: a traversal all of whose reads are in range.
* `foldlM_defined`: a loop that keeps its state in range.
* `foldlM_sum`: a loop that adds up what its items are worth.
* `foldlM_indices`: a loop over the indices of a list is a loop over the list.
-/

namespace Checked

variable {α β σ : Type}

/-- `&xs[start..]`. -/
def sliceFrom (xs : List α) (start : ℕ) : Option (List α) :=
  if start ≤ xs.length then some (xs.drop start) else none

/-- `&xs[start..=stop]`. -/
def slice (xs : List α) (start stop : ℕ) : Option (List α) :=
  if start ≤ stop + 1 ∧ stop + 1 ≤ xs.length then some ((xs.take (stop + 1)).drop start) else none

/-- `xs[index] = x`. -/
def store (xs : List α) (index : ℕ) (x : α) : Option (List α) :=
  if index < xs.length then some (xs.set index x) else none

theorem getElem?_defined {xs : List α} {i : ℕ} (h : i < xs.length) : ∃ x, xs[i]? = some x :=
  ⟨_, List.getElem?_eq_getElem h⟩

/-- A traversal whose steps are all defined. -/
theorem mapM_defined {f : α → Option β} {P : α → β → Prop} {l : List α}
    (h : ∀ a ∈ l, ∃ b, f a = some b ∧ P a b) : ∃ bs, l.mapM f = some bs ∧ List.Forall₂ P l bs := by
  induction l with
  | nil => exact ⟨[], rfl, .nil⟩
  | cons a l ih =>
    obtain ⟨⟨b, hb, hP⟩, hrest⟩ := List.forall_mem_cons.1 h
    obtain ⟨bs, hbs, hall⟩ := ih hrest
    refine ⟨b :: bs, ?_, .cons hP hall⟩
    rw [List.mapM_cons, hb, hbs]
    rfl

theorem mapM_eq {f : α → Option β} {g : α → β} {l : List α} (h : ∀ a ∈ l, f a = some (g a)) :
    l.mapM f = some (l.map g) := by
  induction l with
  | nil => rfl
  | cons a l ih =>
    obtain ⟨ha, hrest⟩ := List.forall_mem_cons.1 h
    rw [List.mapM_cons, ha, ih hrest]
    rfl

/-- A loop whose steps are defined where the invariant holds, and keep it. -/
theorem foldlM_defined {step : σ → α → Option σ} {I : σ → Prop} {l : List α}
    (h : ∀ s, I s → ∀ a ∈ l, ∃ s', step s a = some s' ∧ I s') :
    ∀ s, I s → ∃ s', l.foldlM step s = some s' ∧ I s' := by
  induction l with
  | nil => exact fun s hs => ⟨s, rfl, hs⟩
  | cons a l ih =>
    intro s hs
    obtain ⟨s', hstep, hs'⟩ := h s hs a List.mem_cons_self
    obtain ⟨s'', hrest, hs''⟩ := ih (fun s hs a ha => h s hs a (List.mem_cons_of_mem _ ha)) s' hs'
    refine ⟨s'', ?_, hs''⟩
    rw [List.foldlM_cons, hstep]
    exact hrest

/-- A loop over the indices from `k` on that reads a list is a loop over the rest of the list. -/
theorem foldlM_indices {step : σ → ℕ → Option σ} {onItem : σ → α → Option σ} {xs : List α}
    (h : ∀ s i a, xs[i]? = some a → step s i = onItem s a) : ∀ (rest : List α) (k : ℕ) (s : σ),
    xs.drop k = rest → (List.range' k rest.length).foldlM step s = rest.foldlM onItem s
  | [], _, _, _ => rfl
  | a :: rest, k, s, hdrop => by
    have ha : xs[k]? = some a := by
      rw [← List.head?_drop, hdrop]
      rfl
    have hrest : xs.drop (k + 1) = rest := by
      rw [← List.tail_drop, hdrop]
      rfl
    rw [List.length_cons, List.range'_succ, List.foldlM_cons, List.foldlM_cons, h s k a ha]
    cases onItem s a with
    | none => rfl
    | some s' => exact foldlM_indices h rest (k + 1) s' hrest

/-- A loop that adds up what its items are worth. -/
theorem foldlM_sum {K : Type} [AddMonoid K] {step : K → α → Option K} {g : α → K} {l : List α}
    (h : ∀ sum, ∀ a ∈ l, step sum a = some (sum + g a)) (sum : K) :
    l.foldlM step sum = some (sum + (l.map g).sum) := by
  induction l generalizing sum with
  | nil => simp
  | cons a l ih =>
    rw [List.foldlM_cons, h sum a List.mem_cons_self, List.map_cons, List.sum_cons, ← add_assoc]
    exact ih (fun sum a ha => h sum a (List.mem_cons_of_mem _ ha)) (sum + g a)

/-- A search whose tests are defined finds one of the candidates, or none. -/
theorem findM?_defined {p : α → Option Bool} {l : List α} (h : ∀ a ∈ l, ∃ b, p a = some b) :
    ∃ found, l.findM? p = some found ∧ ∀ a ∈ found, a ∈ l := by
  induction l with
  | nil => exact ⟨none, rfl, fun a ha => nomatch ha⟩
  | cons a l ih =>
    obtain ⟨⟨b, hb⟩, hrest⟩ := List.forall_mem_cons.1 h
    cases b with
    | true =>
      refine ⟨some a, ?_, fun a' ha' => ?_⟩
      · rw [List.findM?, hb]
        rfl
      · exact Option.some.inj ha' ▸ List.mem_cons_self
    | false =>
      obtain ⟨found, hfound, hmem⟩ := ih hrest
      refine ⟨found, ?_, fun a' ha' => List.mem_cons_of_mem _ (hmem a' ha')⟩
      rw [List.findM?, hb]
      exact hfound

end Checked
