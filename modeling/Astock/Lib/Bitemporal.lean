import Mathlib.Tactic

/-!
# Bitemporal tables

A row is valid in a span of business time, and known in a span of knowledge time: from the
time it was recorded until one that superseded it. A table is the list of its rows.

* `asOf`: the rows that are valid at one time and known at another.
* `SameAsOf`: two tables that nobody can tell apart at knowledge times up to `k`. Recording a
  row later than `k` (`SameAsOf.append`) and superseding rows later than `k` (`SameAsOf.map`
  with `seen_supersede`) lead to such a table, and they compose.
-/

namespace Bitemporal

/-- When a row is valid and when it is known; an open end is `none`. -/
structure Stamp where
  validFrom : ℤ
  validTo : Option ℤ
  recordedAt : ℤ
  supersededAt : Option ℤ
  deriving DecidableEq

namespace Stamp

/-- Valid at `business`, and known at `knowledge`. -/
def Seen (s : Stamp) (business knowledge : ℤ) : Prop :=
  s.recordedAt ≤ knowledge ∧ (∀ t ∈ s.supersededAt, knowledge < t) ∧ s.validFrom ≤ business ∧
    ∀ t ∈ s.validTo, business < t

instance (s : Stamp) (business knowledge : ℤ) : Decidable (s.Seen business knowledge) :=
  inferInstanceAs (Decidable (_ ∧ _ ∧ _ ∧ _))

/-- Known until `t` at most. -/
def supersede (t : ℤ) (s : Stamp) : Stamp :=
  { s with supersededAt := some (s.supersededAt.elim t (min t)) }

/-- A row superseded later than `knowledge` is still known then. -/
theorem seen_supersede {s : Stamp} {t business knowledge : ℤ} (ht : knowledge < t) :
    (s.supersede t).Seen business knowledge ↔ s.Seen business knowledge := by
  have hend : (∀ u ∈ (s.supersede t).supersededAt, knowledge < u) ↔
      ∀ u ∈ s.supersededAt, knowledge < u := by
    cases h : s.supersededAt with
    | none => simp [supersede, h, ht]
    | some u => simp [supersede, h, ht]
  unfold Seen
  rw [hend]
  rfl

end Stamp

variable {α β : Type} {stamp : α → Stamp} {face : α → β} {k : ℤ} {rows rows' rows'' : List α}

/-- The rows that are valid and known. -/
def asOf (stamp : α → Stamp) (business knowledge : ℤ) (rows : List α) : List α :=
  rows.filter fun r => (stamp r).Seen business knowledge

theorem mem_asOf {r : α} {business knowledge : ℤ} :
    r ∈ asOf stamp business knowledge rows ↔ r ∈ rows ∧ (stamp r).Seen business knowledge := by
  simp [asOf]

/-- What `face` shows of the rows is the same at every business time, at every knowledge time
up to `k`. -/
def SameAsOf (stamp : α → Stamp) (face : α → β) (k : ℤ) (rows rows' : List α) : Prop :=
  ∀ business knowledge, knowledge ≤ k →
    (asOf stamp business knowledge rows').map face = (asOf stamp business knowledge rows).map face

theorem SameAsOf.refl (rows : List α) : SameAsOf stamp face k rows rows := fun _ _ _ => rfl

theorem SameAsOf.trans (h : SameAsOf stamp face k rows rows')
    (h' : SameAsOf stamp face k rows' rows'') : SameAsOf stamp face k rows rows'' :=
  fun business knowledge hk => (h' business knowledge hk).trans (h business knowledge hk)

/-- **A row recorded later.** -/
theorem SameAsOf.append {r : α} (hr : k < (stamp r).recordedAt) :
    SameAsOf stamp face k rows (rows ++ [r]) := by
  intro business knowledge hk
  have hunseen : ¬ (stamp r).Seen business knowledge := by
    intro h
    have := h.1
    omega
  simp [asOf, hunseen]

/-- **Rows changed in what is not seen.** -/
theorem SameAsOf.map {f : α → α}
    (hseen : ∀ r ∈ rows, ∀ business knowledge, knowledge ≤ k →
      ((stamp (f r)).Seen business knowledge ↔ (stamp r).Seen business knowledge))
    (hface : ∀ r ∈ rows, face (f r) = face r) :
    SameAsOf stamp face k rows (rows.map f) := by
  intro business knowledge hk
  induction rows with
  | nil => rfl
  | cons r rest ih =>
    have ih := ih (fun r hr => hseen r (List.mem_cons_of_mem _ hr))
      fun r hr => hface r (List.mem_cons_of_mem _ hr)
    have hhead := hseen r List.mem_cons_self business knowledge hk
    have hshown := hface r List.mem_cons_self
    by_cases hr : (stamp r).Seen business knowledge
    · have hr' := hhead.2 hr
      simpa [asOf, hr, hr', hshown] using ih
    · have hr' : ¬ (stamp (f r)).Seen business knowledge := fun h => hr (hhead.1 h)
      simpa [asOf, hr, hr'] using ih

end Bitemporal
