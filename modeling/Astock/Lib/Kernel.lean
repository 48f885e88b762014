import Mathlib.Tactic

/-!
# What stands when some items block others

An item stands if no item that stands blocks it.

* `IsKernel`: the items that stand. Where items only block those of a higher rank, there is one such set
  (`IsKernel.unique`).
* `isKernel_pass`: **one pass over the items finds it**, if no item blocks one before it.
-/

namespace Kernel

variable {α : Type} {blocks : α → α → Prop} {l : List α} {K K' : α → Prop} {a b : α}

/-- The items of a list that stand. -/
def IsKernel (blocks : α → α → Prop) (l : List α) (K : α → Prop) : Prop :=
  ∀ a, K a ↔ a ∈ l ∧ ∀ b, K b → ¬ blocks b a

theorem IsKernel.mem (hK : IsKernel blocks l K) (ha : K a) : a ∈ l := ((hK a).1 ha).1

theorem IsKernel.not_blocks (hK : IsKernel blocks l K) (ha : K a) (hb : K b) : ¬ blocks b a :=
  ((hK a).1 ha).2 b hb

/-- What does not stand is blocked by what does. -/
theorem IsKernel.exists_blocks (hK : IsKernel blocks l K) (ha : a ∈ l) (hnot : ¬ K a) : ∃ b, K b ∧ blocks b a := by
  by_contra hnone
  push Not at hnone
  exact hnot ((hK a).2 ⟨ha, hnone⟩)

/-- **There is one kernel**, if items only block those of a higher rank. -/
theorem IsKernel.unique (rank : α → ℕ) (hrank : ∀ a ∈ l, ∀ b ∈ l, blocks a b → rank a < rank b)
    (hK : IsKernel blocks l K) (hK' : IsKernel blocks l K') : K = K' := by
  have hagree : ∀ n a, rank a < n → (K a ↔ K' a) := by
    intro n
    induction n with
    | zero => exact fun a h => absurd h (Nat.not_lt_zero _)
    | succ n ih =>
      intro a hlt
      rw [hK a, hK' a]
      refine and_congr_right fun ha => forall_congr' fun b => ?_
      constructor
      · intro h hb hblocks
        have hbelow := hrank b (hK'.mem hb) a ha hblocks
        exact h ((ih b (by omega)).2 hb) hblocks
      · intro h hb hblocks
        have hbelow := hrank b (hK.mem hb) a ha hblocks
        exact h ((ih b (by omega)).1 hb) hblocks
  exact funext fun a => propext (hagree _ a (Nat.lt_succ_self _))

theorem IsKernel.congr {l' : List α} (hmem : ∀ a, a ∈ l ↔ a ∈ l') : IsKernel blocks l K ↔ IsKernel blocks l' K :=
  forall_congr' fun a => by rw [hmem a]

/-- Keep the items that nothing kept blocks. -/
def pass (blocks : α → α → Prop) [DecidableRel blocks] (l : List α) : List α :=
  l.foldl (fun kept a => if kept.any (blocks · a) then kept else kept ++ [a]) []

variable [DecidableRel blocks]

theorem pass_concat (l : List α) (a : α) : pass blocks (l ++ [a]) =
    if (pass blocks l).any (blocks · a) then pass blocks l else pass blocks l ++ [a] := by
  unfold pass
  rw [List.foldl_append]
  rfl

theorem mem_of_mem_pass (h : a ∈ pass blocks l) : a ∈ l := by
  induction l using List.reverseRecOn with
  | nil => exact h
  | append_singleton l x ih =>
    rw [pass_concat] at h
    split at h
    · exact List.mem_append_left _ (ih h)
    · rcases List.mem_append.1 h with h | h
      · exact List.mem_append_left _ (ih h)
      · exact List.mem_append_right _ h

/-- **One pass finds the kernel.** -/
theorem isKernel_pass (hself : ∀ a ∈ l, ¬ blocks a a) (hbefore : l.Pairwise fun a b => ¬ blocks b a) :
    IsKernel blocks l (· ∈ pass blocks l) := by
  induction l using List.reverseRecOn with
  | nil => exact fun a => iff_of_false List.not_mem_nil fun h => List.not_mem_nil h.1
  | append_singleton l x ih =>
    obtain ⟨hl, -, hx⟩ := List.pairwise_append.1 hbefore
    have hkernel := ih (fun a ha => hself a (List.mem_append_left _ ha)) hl
    have hlast : ∀ a ∈ l, ¬ blocks x a := fun a ha => hx a ha x (List.mem_singleton_self _)
    have hxx : ¬ blocks x x := hself x (List.mem_append_right _ (List.mem_singleton_self _))
    by_cases hany : (pass blocks l).any (blocks · x) = true
    · -- the last item is dropped
      have hpass : pass blocks (l ++ [x]) = pass blocks l := by rw [pass_concat, if_pos hany]
      obtain ⟨b, hb, hblocks⟩ := List.any_eq_true.1 hany
      rw [hpass]
      intro a
      refine ⟨fun ha => ⟨List.mem_append_left _ (hkernel.mem ha), fun c hc => hkernel.not_blocks ha hc⟩, ?_⟩
      rintro ⟨hmem, hfree⟩
      rcases List.mem_append.1 hmem with hmem | hmem
      · exact (hkernel a).2 ⟨hmem, hfree⟩
      · rw [List.mem_singleton.1 hmem] at hfree
        exact absurd (of_decide_eq_true hblocks) (hfree b hb)
    · -- nothing kept blocks it
      have hkept : ∀ c, c ∈ pass blocks (l ++ [x]) ↔ c ∈ pass blocks l ∨ c = x := by
        intro c
        rw [pass_concat, if_neg hany, List.mem_append, List.mem_singleton]
      have hfree : ∀ b ∈ pass blocks l, ¬ blocks b x := by
        intro b hb hblocks
        exact hany (List.any_eq_true.2 ⟨b, hb, decide_eq_true hblocks⟩)
      refine fun a => (hkept a).trans ?_
      constructor
      · rintro (ha | rfl)
        · refine ⟨List.mem_append_left _ (hkernel.mem ha), fun c hc => ?_⟩
          rcases (hkept c).1 hc with hc | rfl
          · exact hkernel.not_blocks ha hc
          · exact hlast a (hkernel.mem ha)
        · refine ⟨List.mem_append_right _ (List.mem_singleton_self _), fun c hc => ?_⟩
          rcases (hkept c).1 hc with hc | rfl
          · exact hfree c hc
          · exact hxx
      · rintro ⟨hmem, hstands⟩
        rcases List.mem_append.1 hmem with hmem | hmem
        · exact .inl ((hkernel a).2 ⟨hmem, fun c hc => hstands c ((hkept c).2 (.inl hc))⟩)
        · exact .inr (List.mem_singleton.1 hmem)

/-- A pass that compares each item with those before it. -/
theorem pass_congr {blocks' : α → α → Prop} [DecidableRel blocks']
    (h : l.Pairwise fun a b => blocks a b ↔ blocks' a b) : pass blocks l = pass blocks' l := by
  induction l using List.reverseRecOn with
  | nil => rfl
  | append_singleton l x ih =>
    obtain ⟨hl, -, hx⟩ := List.pairwise_append.1 h
    have hany : (pass blocks' l).any (blocks · x) = (pass blocks' l).any (blocks' · x) := by
      rw [Bool.eq_iff_iff, List.any_eq_true, List.any_eq_true]
      refine exists_congr fun a => and_congr_right fun ha => ?_
      rw [decide_eq_true_iff, decide_eq_true_iff]
      exact hx a (mem_of_mem_pass ha) x (List.mem_singleton_self _)
    rw [pass_concat, pass_concat, ih hl, hany]

/-- The pass looks at what it compares, and nothing else. -/
theorem map_pass {β : Type} {blocks' : β → β → Prop} [DecidableRel blocks'] (f : α → β)
    (h : ∀ a b, blocks a b ↔ blocks' (f a) (f b)) (l : List α) :
    (pass blocks l).map f = pass blocks' (l.map f) := by
  induction l using List.reverseRecOn with
  | nil => rfl
  | append_singleton l x ih =>
    have hany : ((pass blocks l).map f).any (blocks' · (f x)) = (pass blocks l).any (blocks · x) := by
      rw [List.any_map]
      exact congrArg (List.any _) (funext fun a => decide_eq_decide.2 (h a x).symm)
    rw [List.map_append, List.map_singleton, pass_concat, pass_concat, ← ih, hany]
    split
    · rfl
    · rw [List.map_append, List.map_singleton]

end Kernel
