import Mathlib.Tactic

/-!
# Lists of records that are added and changed in place

What is there after `List.modify` or after a record is appended, by position and by membership.
-/

namespace Slots

variable {α : Type} {f : α → α} {l : List α} {i j : ℕ} {x y : α}

theorem modify_getElem? (h : (l.modify i f)[j]? = some y) :
    ∃ x, l[j]? = some x ∧ (i = j ∧ y = f x ∨ i ≠ j ∧ y = x) := by
  rw [List.getElem?_modify, Option.map_eq_map, Option.map_eq_some_iff] at h
  obtain ⟨x, hx, rfl⟩ := h
  refine ⟨x, hx, ?_⟩
  by_cases hij : i = j
  · exact .inl ⟨hij, if_pos hij⟩
  · exact .inr ⟨hij, if_neg hij⟩

theorem getElem?_modify_of (f : α → α) (i : ℕ) (h : l[j]? = some x) :
    (l.modify i f)[j]? = some (if i = j then f x else x) := by
  rw [List.getElem?_modify, h]
  rfl

theorem append_getElem? (h : (l ++ [x])[i]? = some y) : l[i]? = some y ∨ i = l.length ∧ y = x := by
  by_cases hi : i < l.length
  · left
    rwa [List.getElem?_append_left hi] at h
  · right
    rw [List.getElem?_append_right (by omega)] at h
    obtain ⟨hlt, heq⟩ := List.getElem?_eq_some_iff.1 h
    rw [List.length_singleton] at hlt
    have hi' : i = l.length := by omega
    subst hi'
    exact ⟨rfl, by simpa using heq.symm⟩

/-- A record that is there was there, or is the changed one. -/
theorem exists_of_mem_modify (h : y ∈ l.modify i f) :
    ∃ x ∈ l, y = x ∨ l[i]? = some x ∧ y = f x := by
  obtain ⟨j, hj⟩ := List.mem_iff_getElem?.1 h
  obtain ⟨x, hx, ⟨rfl, hy⟩ | ⟨-, hy⟩⟩ := modify_getElem? hj
  · exact ⟨x, List.mem_of_getElem? hx, .inr ⟨hx, hy⟩⟩
  · exact ⟨x, List.mem_of_getElem? hx, .inl hy⟩

/-- A record that was there is there, or is the one that was changed. -/
theorem exists_mem_modify (f : α → α) (i : ℕ) (h : x ∈ l) :
    ∃ y ∈ l.modify i f, y = x ∨ l[i]? = some x ∧ y = f x := by
  obtain ⟨j, hj⟩ := List.mem_iff_getElem?.1 h
  refine ⟨_, List.mem_of_getElem? (getElem?_modify_of f i hj), ?_⟩
  by_cases hij : i = j
  · rw [if_pos hij, hij]
    exact .inr ⟨hj, rfl⟩
  · exact .inl (if_neg hij)

theorem mem_modify_self (h : l[i]? = some x) : f x ∈ l.modify i f := by
  have hi := getElem?_modify_of f i h
  rw [if_pos rfl] at hi
  exact List.mem_of_getElem? hi

/-- What the records weigh together, when one of them changes. -/
theorem sum_map_modify (f : α → α) (g : α → ℕ) (h : l[i]? = some x) :
    ∃ rest, (l.map g).sum = g x + rest ∧ ((l.modify i f).map g).sum = g (f x) + rest := by
  induction l generalizing i with
  | nil => simp at h
  | cons y l ih =>
    cases i with
    | zero =>
      have hy : y = x := by simpa using h
      subst hy
      exact ⟨(l.map g).sum, rfl, rfl⟩
    | succ i =>
      obtain ⟨rest, hbefore, hafter⟩ := ih (by simpa using h)
      refine ⟨g y + rest, ?_, ?_⟩
      · rw [List.map_cons, List.sum_cons, hbefore]
        omega
      · rw [List.modify_succ_cons, List.map_cons, List.sum_cons, hafter]
        omega

theorem sum_map_modify_of {g : α → ℕ} (h : ∀ x, g (f x) = g x) :
    ((l.modify i f).map g).sum = (l.map g).sum := by
  cases hx : l[i]? with
  | none => rw [List.modify_eq_self (List.getElem?_eq_none_iff.1 hx)]
  | some x =>
    obtain ⟨rest, hbefore, hafter⟩ := sum_map_modify f g hx
    rw [hbefore, hafter, h]

end Slots
