import Mathlib.Data.List.Destutter
import Mathlib.Tactic

/-!
# Sorted lists

Stable sorting by a key and binary search, as `sort_by_key` and `partition_point` of Rust's slices.

* `filter_sortByKey`: a stable sort keeps what a filter keeps in its order.
* `sortedValues_pairwise`, `mem_sortedValues`: sorting and then dropping repetitions puts the values in
  order, each once.
* `takeWhile_eq_filter`, `drop_partitionPoint`: a binary search on a sorted list splits it as a
  filter does.
-/

namespace Sorted

variable {α κ : Type} [LinearOrder κ] {key : α → κ}

/-- `sort_by_key`: stable. -/
def sortByKey (key : α → κ) (l : List α) : List α := l.insertionSort fun a b => key a ≤ key b

/-- `partition_point` of a list that `p` partitions. -/
def partitionPoint (p : α → Bool) (l : List α) : ℕ := (l.takeWhile p).length

theorem sortByKey_pairwise (key : α → κ) (l : List α) :
    (sortByKey key l).Pairwise fun a b => key a ≤ key b :=
  List.pairwise_insertionSort _ l

theorem mem_sortByKey {l : List α} {a : α} : a ∈ sortByKey key l ↔ a ∈ l :=
  List.mem_insertionSort _

/-- Sorting a sorted list leaves it. -/
theorem sortByKey_eq_self {l : List α} (hl : l.Pairwise fun a b => key a ≤ key b) :
    sortByKey key l = l :=
  List.Pairwise.insertionSort_eq hl

/-- Sorting and a map commute if the map keeps the order of the keys. -/
theorem map_sortByKey {β ι : Type} [LinearOrder ι] {key' : β → ι} {f : α → β} {l : List α}
    (h : ∀ a ∈ l, ∀ b ∈ l, key a ≤ key b ↔ key' (f a) ≤ key' (f b)) :
    (sortByKey key l).map f = sortByKey key' (l.map f) :=
  List.map_insertionSort _ _ f l h

/-- The insertion of one element before those that are not smaller commutes with a filter. -/
theorem filter_orderedInsert (p : α → Bool) (a : α) {l : List α}
    (hl : l.Pairwise fun a b => key a ≤ key b) :
    (l.orderedInsert (fun a b => key a ≤ key b) a).filter p =
      if p a then (l.filter p).orderedInsert (fun a b => key a ≤ key b) a else l.filter p := by
  induction l with
  | nil => cases h : p a <;> simp [h]
  | cons b l ih =>
    obtain ⟨hb, hl⟩ := List.pairwise_cons.1 hl
    rw [List.orderedInsert_cons]
    by_cases hab : key a ≤ key b
    · rw [if_pos hab]
      by_cases ha : p a
      · rw [if_pos ha, List.filter_cons_of_pos ha]
        -- `a` stays first whether or not `b` is kept
        symm
        have hle : ∀ c ∈ (b :: l).filter p, key a ≤ key c := by
          intro c hc
          rcases List.mem_cons.1 (List.mem_of_mem_filter hc) with rfl | hc
          · exact hab
          · exact hab.trans (hb c hc)
        cases hf : (b :: l).filter p with
        | nil => rfl
        | cons c cs =>
          rw [List.orderedInsert_cons, if_pos (hle c (by rw [hf]; exact List.mem_cons_self))]
      · rw [if_neg ha, List.filter_cons_of_neg ha]
    · rw [if_neg hab]
      by_cases hpb : p b
      · rw [List.filter_cons_of_pos hpb, List.filter_cons_of_pos hpb, ih hl]
        split
        · rw [List.orderedInsert_cons, if_neg hab]
        · rfl
      · rw [List.filter_cons_of_neg hpb, List.filter_cons_of_neg hpb, ih hl]

/-- **A stable sort keeps what a filter keeps in its order.** -/
theorem filter_sortByKey (p : α → Bool) (l : List α) :
    (sortByKey key l).filter p = sortByKey key (l.filter p) := by
  induction l with
  | nil => rfl
  | cons a l ih =>
    have hinsert := filter_orderedInsert p a (sortByKey_pairwise key l)
    have hcons : sortByKey key (a :: l) =
        (sortByKey key l).orderedInsert (fun a b => key a ≤ key b) a := rfl
    rw [hcons, hinsert, ih]
    by_cases ha : p a
    · rw [if_pos ha, List.filter_cons_of_pos ha]
      rfl
    · rw [if_neg ha, List.filter_cons_of_neg ha]

/-- On a list sorted by a key, the elements up to the first whose key is not below a bound are those
with a key below it. -/
theorem takeWhile_eq_filter (key : α → κ) {p : α → Bool} {l : List α}
    (hl : l.Pairwise fun a b => key a ≤ key b) (hp : ∀ a b, key a ≤ key b → p b → p a) :
    l.takeWhile p = l.filter p := by
  induction l with
  | nil => rfl
  | cons a l ih =>
    obtain ⟨ha, hl⟩ := List.pairwise_cons.1 hl
    by_cases hpa : p a
    · rw [List.takeWhile_cons_of_pos hpa, List.filter_cons_of_pos hpa, ih hl]
    · rw [List.takeWhile_cons_of_neg hpa, List.filter_cons_of_neg hpa]
      refine (List.filter_eq_nil_iff.2 fun b hb hpb => hpa (hp a b (ha b hb) hpb)).symm

/-- What a binary search leaves is what the predicate does not hold of. -/
theorem drop_partitionPoint (key : α → κ) {p : α → Bool} {l : List α}
    (hl : l.Pairwise fun a b => key a ≤ key b) (hp : ∀ a b, key a ≤ key b → p b → p a) :
    l.drop (partitionPoint p l) = l.filter (!p ·) := by
  induction l with
  | nil => rfl
  | cons a l ih =>
    obtain ⟨ha, hl⟩ := List.pairwise_cons.1 hl
    by_cases hpa : p a
    · rw [partitionPoint, List.takeWhile_cons_of_pos hpa, List.length_cons, List.drop_succ_cons,
        List.filter_cons_of_neg (by simp [hpa])]
      exact ih hl
    · rw [partitionPoint, List.takeWhile_cons_of_neg hpa, List.length_nil, List.drop_zero]
      refine (List.filter_eq_self.2 fun b hb => ?_).symm
      rcases List.mem_cons.1 hb with rfl | hb
      · simpa using hpa
      · have hpb : ¬p b := fun h => hpa (hp a b (ha b hb) h)
        simpa using hpb

/-- A sorted list is the part that such a predicate holds of, then the rest. -/
theorem filter_append_filter_not (key : α → κ) {p : α → Bool} {l : List α}
    (hl : l.Pairwise fun a b => key a ≤ key b) (hp : ∀ a b, key a ≤ key b → p b → p a) :
    l.filter p ++ l.filter (!p ·) = l := by
  rw [← takeWhile_eq_filter key hl hp, ← drop_partitionPoint key hl hp]
  exact List.prefix_iff_eq_append.1 (List.takeWhile_prefix p)

/-- A search in a list that goes on past a place where the predicate fails stops in the part before
that place. -/
theorem takeWhile_take {p : α → Bool} {l : List α} {n : ℕ} {a : α} (hn : l[n]? = some a)
    (ha : ¬p a) : (l.take (n + 1)).takeWhile p = l.takeWhile p := by
  induction l generalizing n with
  | nil => simp at hn
  | cons b l ih =>
    rw [List.take_succ_cons]
    by_cases hb : p b
    · rw [List.takeWhile_cons_of_pos hb, List.takeWhile_cons_of_pos hb]
      cases n with
      | zero =>
        obtain rfl : b = a := by simpa using hn
        exact absurd hb ha
      | succ n => rw [ih (by simpa using hn)]
    · rw [List.takeWhile_cons_of_neg hb, List.takeWhile_cons_of_neg hb]

/-- The first elements that a filter keeps are among the first that it keeps. -/
theorem filter_take_subset (p : α → Bool) (l : List α) (n : ℕ) :
    (l.take n).filter p ⊆ (l.filter p).take n := by
  have hprefix : (l.take n).filter p <+: l.filter p := (List.take_prefix n l).filter p
  have hlength : ((l.take n).filter p).length ≤ n :=
    (List.length_filter_le p _).trans (List.length_take_le n l)
  rw [List.prefix_iff_eq_take.1 hprefix]
  exact (List.take_prefix_take_left hlength).subset

/-! ## Values in order

What `sort_unstable` and `dedup` leave. -/

theorem mem_destutter' {x a : κ} {l : List κ} : x ∈ l.destutter' (· ≠ ·) a ↔ x = a ∨ x ∈ l := by
  induction l generalizing a with
  | nil => simp
  | cons b l ih =>
    rw [List.destutter'_cons, List.mem_cons]
    by_cases hab : a = b
    · rw [if_neg (not_not.2 hab), ih, hab]
      exact ⟨fun h => h.imp_right .inr, fun h => h.elim .inl id⟩
    · rw [if_pos hab, List.mem_cons, ih]

theorem mem_sortedValues {x : κ} {l : List κ} :
    x ∈ (l.insertionSort (· ≤ ·)).destutter (· ≠ ·) ↔ x ∈ l := by
  rw [← List.mem_insertionSort (· ≤ ·) (l := l)]
  cases l.insertionSort (· ≤ ·) with
  | nil => rfl
  | cons a l => rw [List.destutter_cons', mem_destutter', List.mem_cons]

/-- **The values** are in order, each once. -/
theorem sortedValues_pairwise (l : List κ) :
    ((l.insertionSort (· ≤ ·)).destutter (· ≠ ·)).Pairwise (· < ·) := by
  have hle : ((l.insertionSort (· ≤ ·)).destutter (· ≠ ·)).Pairwise (· ≤ ·) :=
    (List.pairwise_insertionSort _ l).sublist (List.destutter_sublist _ _)
  have hne := List.isChain_destutter (· ≠ ·) (l.insertionSort (· ≤ ·))
  have hlt : ((l.insertionSort (· ≤ ·)).destutter (· ≠ ·)).IsChain (· < ·) := by
    refine List.isChain_iff_getElem.2 fun i hi => ?_
    exact lt_of_le_of_ne (List.isChain_iff_getElem.1 hle.isChain i hi)
      (List.isChain_iff_getElem.1 hne i hi)
  exact List.isChain_iff_pairwise.1 hlt

end Sorted
