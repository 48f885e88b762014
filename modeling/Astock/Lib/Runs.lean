import Mathlib.Tactic

/-!
# Cutting a list into runs

`Runs r k l groups`: the groups are the list in order, neighbours within a group are related, no group
has more than `k` members, and a group is only shorter than that where the list ends or the next
member is not related to its last.

* `Runs.extend`, `Runs.start`: one member more, in the last group or in a new one.
-/

structure Runs {α : Type} (r : α → α → Prop) (k : ℕ) (l : List α) (groups : List (List α)) : Prop where
  order : groups.flatten = l
  nonempty : ∀ g ∈ groups, g ≠ []
  size : ∀ g ∈ groups, g.length ≤ k
  related : ∀ g ∈ groups, g.IsChain r
  short : groups.IsChain fun g g' => g.length < k → ∀ a ∈ g.getLast?, ∀ b ∈ g'.head?, ¬ r a b

namespace Runs

variable {α : Type} {r : α → α → Prop} {k : ℕ} {l : List α} {groups : List (List α)} {g : List α} {a : α}

theorem nil : Runs r k [] [] where
  order := rfl
  nonempty := by simp
  size := by simp
  related := by simp
  short := .nil

/-- The last group goes on. -/
theorem extend (h : Runs r k l (groups ++ [g])) (hsize : g.length < k) (hrel : ∀ b ∈ g.getLast?, r b a) :
    Runs r k (l ++ [a]) (groups ++ [g ++ [a]]) where
  order := by
    rw [← h.order]
    simp
  nonempty g' hg' := by
    rcases List.mem_append.1 hg' with hg' | hg'
    · exact h.nonempty g' (List.mem_append_left _ hg')
    · rw [List.mem_singleton.1 hg']
      simp
  size g' hg' := by
    rcases List.mem_append.1 hg' with hg' | hg'
    · exact h.size g' (List.mem_append_left _ hg')
    · rw [List.mem_singleton.1 hg', List.length_append, List.length_singleton]
      omega
  related g' hg' := by
    rcases List.mem_append.1 hg' with hg' | hg'
    · exact h.related g' (List.mem_append_left _ hg')
    · rw [List.mem_singleton.1 hg', List.isChain_append]
      refine ⟨h.related g (by simp), .singleton a, fun b hb c hc => ?_⟩
      obtain rfl : a = c := by simpa using hc
      exact hrel b hb
  short := by
    have hg : g ≠ [] := h.nonempty g (by simp)
    have hshort := h.short
    rw [List.isChain_append] at hshort ⊢
    refine ⟨hshort.1, .singleton _, fun g₁ hg₁ g₂ hg₂ hlt b hb c hc => ?_⟩
    obtain rfl : g ++ [a] = g₂ := by simpa using hg₂
    rw [List.head?_append_of_ne_nil _ hg] at hc
    exact hshort.2.2 g₁ hg₁ g (by simp) hlt b hb c hc

/-- A new group starts. -/
theorem start (h : Runs r k l groups) (hk : 0 < k)
    (hbreak : ∀ g ∈ groups.getLast?, g.length < k → ∀ b ∈ g.getLast?, ¬ r b a) :
    Runs r k (l ++ [a]) (groups ++ [[a]]) where
  order := by
    rw [← h.order]
    simp
  nonempty g' hg' := by
    rcases List.mem_append.1 hg' with hg' | hg'
    · exact h.nonempty g' hg'
    · rw [List.mem_singleton.1 hg']
      simp
  size g' hg' := by
    rcases List.mem_append.1 hg' with hg' | hg'
    · exact h.size g' hg'
    · rw [List.mem_singleton.1 hg']
      exact hk
  related g' hg' := by
    rcases List.mem_append.1 hg' with hg' | hg'
    · exact h.related g' hg'
    · rw [List.mem_singleton.1 hg']
      exact .singleton a
  short := by
    rw [List.isChain_append]
    refine ⟨h.short, .singleton _, fun g₁ hg₁ g₂ hg₂ hlt b hb c hc => ?_⟩
    obtain rfl : [a] = g₂ := by simpa using hg₂
    obtain rfl : a = c := by simpa using hc
    exact hbreak g₁ hg₁ hlt b hb

/-- The last member of the last group is the last of the list. -/
theorem getLast?_eq (h : Runs r k l (groups ++ [g])) : l.getLast? = g.getLast? := by
  have hg : g ≠ [] := h.nonempty g (by simp)
  rw [← h.order, List.flatten_append, List.flatten_singleton, List.getLast?_append_of_ne_nil _ hg]

end Runs
