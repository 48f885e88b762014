import Astock.Lib.Prog

/-!
# Metered programs

A program whose state is a meter: what it has spent so far.

* `Metered`: from any reading within the limit the program spends at least a given amount, stays
  within the limit, and is left with a value or an error that meets a condition.
* `metered_pure`, `metered_throw`, `Metered.bind`, `Metered.weaken`: how the bounds compose.
-/

namespace Prog

variable {ε α β : Type} {limit m n : ℕ} {E : ε → Prop} {Q Q' : α → Prop} {R : β → Prop}

/-- A program that spends `n` at least. -/
def Metered (limit : ℕ) (E : ε → Prop) (x : Prog ℕ ε α) (n : ℕ) (Q : α → Prop) : Prop :=
  ∀ start ≤ limit, Triple (· = start) x (fun a used => start + n ≤ used ∧ used ≤ limit ∧ Q a)
    fun e _ => E e

theorem Metered.ok {x : Prog ℕ ε α} (h : Metered limit E x n Q) {start used : ℕ} {a : α}
    (hstart : start ≤ limit) (hx : exec x start = (.ok a, used)) :
    start + n ≤ used ∧ used ≤ limit ∧ Q a :=
  (h start hstart).ok rfl hx

theorem Metered.error {x : Prog ℕ ε α} (h : Metered limit E x n Q) {start used : ℕ} {e : ε}
    (hstart : start ≤ limit) (hx : exec x start = (.error e, used)) : E e :=
  (h start hstart).error rfl hx

theorem metered_pure {a : α} (h : Q a) : Metered limit E (pure a) 0 Q :=
  fun _ hstart => triple_pure fun _ hs => ⟨hs.ge, hs.trans_le hstart, h⟩

theorem metered_throw {e : ε} (h : E e) : Metered limit E (throw e : Prog ℕ ε α) n Q :=
  fun _ _ => triple_throw fun _ _ => h

/-- **A sequence spends what its parts do.** -/
theorem Metered.bind {x : Prog ℕ ε α} {f : α → Prog ℕ ε β} (hx : Metered limit E x m Q)
    (hf : ∀ a, Q a → Metered limit E (f a) n R) : Metered limit E (x >>= f) (m + n) R := by
  intro start hstart
  refine triple_bind (hx start hstart) fun a => ?_
  refine triple_each fun spent hspent => ?_
  obtain ⟨hleast, hmost, ha⟩ := hspent
  refine (hf a ha spent hmost).conseq (fun _ h => h) (fun b used hb => ?_) fun _ _ h => h
  exact ⟨by omega, hb.2⟩

theorem Metered.weaken {x : Prog ℕ ε α} (h : Metered limit E x m Q) (hn : n ≤ m)
    (hQ : ∀ a, Q a → Q' a) : Metered limit E x n Q' := by
  intro start hstart
  refine (h start hstart).conseq (fun _ h => h) (fun a used ha => ?_) fun _ _ h => h
  exact ⟨by omega, ha.2.1, hQ a ha.2.2⟩

end Prog
