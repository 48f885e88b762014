import Mathlib.Tactic

/-!
# Chains of links

A partial function `next` links a place to the one after it. A place without a link is the end of the
chains that lead to it.

* `follow`: the place some links on, and `follow_add`.
* `Ends`: a chain of a given length and its end; `Ends.unique`: a place has one.
* `exists_ends`: without cycles, and with finitely many links, every chain ends.
-/

namespace Links

variable {α : Type} {next : α → Option α} {a b c : α} {m n : ℕ}

/-- The place `n` links on. -/
def follow (next : α → Option α) : ℕ → α → Option α
  | 0, a => some a
  | n + 1, a => (next a).bind (follow next n)

theorem follow_none (h : next a = none) : follow next (n + 1) a = none := by
  rw [follow, h, Option.bind_none]

theorem follow_some (h : next a = some b) : follow next (n + 1) a = follow next n b := by
  rw [follow, h, Option.bind_some]

theorem follow_add (m n : ℕ) (a : α) :
    follow next (m + n) a = (follow next m a).bind (follow next n) := by
  induction m generalizing a with
  | zero => rw [Nat.zero_add, follow, Option.bind_some]
  | succ m ih =>
    rw [Nat.succ_add, follow, follow, Option.bind_assoc]
    exact congrArg (next a).bind (funext ih)

theorem follow_of_add (h : follow next m a = some b) (n : ℕ) :
    follow next (m + n) a = follow next n b := by
  rw [follow_add, h, Option.bind_some]

/-- No place is reached from itself. -/
def Acyclic (next : α → Option α) : Prop := ∀ n a, follow next (n + 1) a ≠ some a

/-- The chain from a place has `n` links and ends at another. -/
def Ends (next : α → Option α) (n : ℕ) (a b : α) : Prop := follow next n a = some b ∧ next b = none

theorem Ends.rest (h : Ends next (m + n) a c) (hm : follow next m a = some b) : Ends next n b c := by
  refine ⟨?_, h.2⟩
  rw [← follow_of_add hm n]
  exact h.1

/-- A place before the end of a chain comes no later than the end. -/
theorem Ends.le (h : Ends next n a c) (hm : follow next m a = some b) : m ≤ n := by
  by_contra hlt
  obtain ⟨d, rfl⟩ : ∃ d, m = n + (d + 1) := ⟨m - n - 1, by omega⟩
  rw [follow_of_add h.1, follow_none h.2] at hm
  cases hm

/-- **A chain has one end.** -/
theorem Ends.unique (h : Ends next n a b) (h' : Ends next m a c) : n = m ∧ b = c := by
  have hle := h.le h'.1
  have hge := h'.le h.1
  obtain rfl : n = m := by omega
  exact ⟨rfl, Option.some.inj (h.1.symm.trans h'.1)⟩

/-- Along a chain without cycles no place comes twice. -/
theorem Acyclic.ne (hacyclic : Acyclic next) {i j : ℕ} (hij : i < j)
    (hi : follow next i a = some b) (hj : follow next j a = some c) : b ≠ c := by
  rintro rfl
  obtain ⟨d, rfl⟩ : ∃ d, j = i + (d + 1) := ⟨j - i - 1, by omega⟩
  rw [follow_of_add hi] at hj
  exact hacyclic d b hj

/-- **Every chain ends** when there are no cycles and the places with a link are in a list. -/
theorem exists_ends (hacyclic : Acyclic next) (places : List α)
    (hplaces : ∀ a, next a ≠ none → a ∈ places) (a : α) : ∃ n b, Ends next n a b := by
  classical
  by_contra hnever
  -- the chain never stops, so it visits more places than there are
  have hgoes : ∀ n, ∃ b, follow next n a = some b := by
    intro n
    induction n with
    | zero => exact ⟨a, rfl⟩
    | succ n ih =>
      obtain ⟨b, hb⟩ := ih
      cases hnext : next b with
      | none => exact absurd ⟨n, b, hb, hnext⟩ hnever
      | some c =>
        refine ⟨c, ?_⟩
        rw [follow_of_add hb, follow_some hnext, follow]
  choose place hplace using hgoes
  have hinj : Function.Injective place := by
    intro i j heq
    rcases Nat.lt_trichotomy i j with hlt | heq' | hlt
    · exact absurd heq (hacyclic.ne hlt (hplace i) (hplace j))
    · exact heq'
    · exact absurd heq.symm (hacyclic.ne hlt (hplace j) (hplace i))
  have hmem : ∀ n, place n ∈ places.toFinset := by
    intro n
    refine List.mem_toFinset.2 (hplaces _ fun hnone => hnever ⟨n, place n, hplace n, hnone⟩)
  have hcard := Finset.card_le_card_of_injOn place (s := Finset.range (places.length + 1))
    (fun n _ => hmem n) hinj.injOn
  have hlength := places.toFinset_card_le
  rw [Finset.card_range] at hcard
  omega

end Links
