import Mathlib.Tactic

/-!
# Choosing the best

A loop keeps one of the values it has seen and replaces it by those that improve on it.

* `pick`: what such a loop ends with.
* `Improves.isBest`: **it has the greatest score**, whichever way equal scores are decided.
* `pick_append_left`, `pick_append_right`: where equal scores replace, it is the last of the best.
-/

namespace Best

variable {α σ : Type} [LinearOrder σ] {score : α → σ} {better : α → α → Bool} {l : List α}

/-- The loop: `better x b` says that `x` replaces `b`. -/
def pick (better : α → α → Bool) (l : List α) : Option α :=
  l.foldl (fun best x => if best.all (better x) then some x else best) none

/-- No value has a greater score. -/
structure IsBest (score : α → σ) (l : List α) (b : α) : Prop where
  mem : b ∈ l
  max : ∀ x ∈ l, score x ≤ score b

theorem IsBest.congr {l' : List α} {b : α} (hmem : ∀ x, x ∈ l' ↔ x ∈ l) (h : IsBest score l b) :
    IsBest score l' b :=
  ⟨(hmem b).2 h.mem, fun x hx => h.max x ((hmem x).1 hx)⟩

/-- What replaces a value has no smaller score, and what does not has no greater one. -/
structure Improves (score : α → σ) (better : α → α → Bool) : Prop where
  up : ∀ a b, better a b = true → score b ≤ score a
  down : ∀ a b, better a b = false → score a ≤ score b

theorem pick_concat (better : α → α → Bool) (l : List α) (x : α) :
    pick better (l ++ [x]) = if (pick better l).all (better x) then some x else pick better l := by
  unfold pick
  rw [List.foldl_append]
  rfl

theorem pick_eq_none_iff : pick better l = none ↔ l = [] := by
  induction l using List.reverseRecOn with
  | nil => exact iff_of_true rfl rfl
  | append_singleton l x ih =>
    rw [pick_concat]
    refine iff_of_false (fun h => ?_) (by simp)
    split at h
    · simp at h
    · rename_i hnot
      rw [h] at hnot
      simp at hnot

/-- **The choice** has the greatest score. -/
theorem Improves.isBest (h : Improves score better) {b : α} (hpick : pick better l = some b) :
    IsBest score l b := by
  induction l using List.reverseRecOn generalizing b with
  | nil => simp [pick] at hpick
  | append_singleton l x ih =>
    rw [pick_concat] at hpick
    cases hl : pick better l with
    | none =>
      rw [hl, Option.all_none, if_pos rfl] at hpick
      obtain rfl := Option.some.inj hpick
      obtain rfl := pick_eq_none_iff.1 hl
      exact ⟨List.mem_singleton_self _, fun y hy => by rw [List.mem_singleton.1 hy]⟩
    | some c =>
      obtain ⟨hmem, hmax⟩ := ih hl
      rw [hl, Option.all_some] at hpick
      cases hbetter : better x c with
      | true =>
        rw [hbetter, if_pos rfl] at hpick
        obtain rfl := Option.some.inj hpick
        refine ⟨List.mem_append_right _ (List.mem_singleton_self _), fun y hy => ?_⟩
        rcases List.mem_append.1 hy with hy | hy
        · exact le_trans (hmax y hy) (h.up _ _ hbetter)
        · rw [List.mem_singleton.1 hy]
      | false =>
        rw [hbetter, if_neg (by simp)] at hpick
        obtain rfl := Option.some.inj hpick
        refine ⟨List.mem_append_left _ hmem, fun y hy => ?_⟩
        rcases List.mem_append.1 hy with hy | hy
        · exact hmax y hy
        · rw [List.mem_singleton.1 hy]
          exact h.down _ _ hbetter

/-! ### Equal scores replace -/

section Last

variable {l₁ l₂ : List α}

theorem improves_le (score : α → σ) : Improves score fun x b => decide (score b ≤ score x) where
  up _ _ h := of_decide_eq_true h
  down _ _ h := (not_le.1 (of_decide_eq_false h)).le

/-- Values that are worse than one before them change nothing. -/
theorem pick_append_left (score : α → σ) {a : α} (ha : a ∈ l₁) (h : ∀ x ∈ l₂, score x < score a) :
    pick (fun x b => decide (score b ≤ score x)) (l₁ ++ l₂) =
      pick (fun x b => decide (score b ≤ score x)) l₁ := by
  induction l₂ using List.reverseRecOn with
  | nil => rw [List.append_nil]
  | append_singleton l₂ x ih =>
    rw [← List.append_assoc, pick_concat, ih fun y hy => h y (List.mem_append_left _ hy)]
    cases hpick : pick (fun x b => decide (score b ≤ score x)) l₁ with
    | none => exact absurd (pick_eq_none_iff.1 hpick ▸ ha) List.not_mem_nil
    | some b =>
      have hlt : score x < score b := (h x (List.mem_append_right _ (List.mem_singleton_self _))).trans_le
        (((improves_le score).isBest hpick).max a ha)
      rw [Option.all_some, if_neg (by simpa using hlt)]

/-- A value that is as good as those before it leaves the choice to those after them. -/
theorem pick_append_right (score : α → σ) {a : α} (ha : a ∈ l₂) (h : ∀ x ∈ l₁, score x ≤ score a) :
    ∃ b ∈ l₂, pick (fun x b => decide (score b ≤ score x)) (l₁ ++ l₂) = some b := by
  induction l₂ using List.reverseRecOn with
  | nil => exact absurd ha List.not_mem_nil
  | append_singleton l₂ x ih =>
    rw [← List.append_assoc, pick_concat]
    split
    · exact ⟨x, List.mem_append_right _ (List.mem_singleton_self _), rfl⟩
    · next hworse =>
      rcases List.mem_append.1 ha with ha | ha
      · obtain ⟨b, hb, hpick⟩ := ih ha
        exact ⟨b, List.mem_append_left _ hb, hpick⟩
      · obtain rfl := List.mem_singleton.1 ha
        cases hpick : pick (fun x b => decide (score b ≤ score x)) (l₁ ++ l₂) with
        | none => exact absurd (by rw [hpick]; rfl) hworse
        | some b =>
          rw [hpick, Option.all_some] at hworse
          have hlt : score a < score b := by simpa using hworse
          rcases List.mem_append.1 ((improves_le score).isBest hpick).mem with hb | hb
          · exact absurd (h b hb) (not_le.2 hlt)
          · exact ⟨b, List.mem_append_left _ hb, rfl⟩

end Last

end Best

/-!
## The latest visible row of each group

Rows belong to groups and carry times; a reader sees some of them, and of these it takes the
latest in each group.

* `isLatest_append_hidden`, `isLatest_append_outranked`: a row that is not seen, and one that a row
  which is seen outranks, change nothing.
* `latest_unique`: one row in each group, when rows of equal time are outranked.
-/

namespace Latest

variable {α κ : Type} {group : α → κ} {time : α → ℤ} {visible : α → Prop} {rows : List α}

/-- The row is seen, and none that is seen in its group is later. -/
def IsLatest (group : α → κ) (time : α → ℤ) (visible : α → Prop) (rows : List α) (r : α) : Prop :=
  visible r ∧ ∀ r' ∈ rows, visible r' → group r' = group r → time r' ≤ time r

instance [DecidableEq κ] [DecidablePred visible] : DecidablePred (IsLatest group time visible rows) :=
  fun _ => inferInstanceAs (Decidable (_ ∧ ∀ r' ∈ rows, _))

/-- A later row of its group is seen whenever it is seen itself. -/
def Outranked (group : α → κ) (time : α → ℤ) (visible : α → Prop) (rows : List α) (r : α) : Prop :=
  visible r → ∃ r' ∈ rows, group r' = group r ∧ visible r' ∧ time r < time r'

theorem Outranked.not_isLatest {r : α} (h : Outranked group time visible rows r) :
    ¬ IsLatest group time visible rows r := by
  rintro ⟨hseen, hlatest⟩
  obtain ⟨r', hmem, hgroup, hseen', hlt⟩ := h hseen
  exact absurd (hlatest r' hmem hseen' hgroup) (not_le.2 hlt)

theorem IsLatest.of_append {r x : α} (h : IsLatest group time visible (rows ++ [x]) r) :
    IsLatest group time visible rows r :=
  ⟨h.1, fun r' hmem => h.2 r' (List.mem_append_left _ hmem)⟩

/-- **A row that is not seen** changes nothing. -/
theorem isLatest_append_hidden {x : α} (hx : ¬ visible x) (r : α) :
    IsLatest group time visible (rows ++ [x]) r ↔ IsLatest group time visible rows r := by
  refine ⟨fun h => h.of_append, fun h => ⟨h.1, fun r' hmem hseen => ?_⟩⟩
  rcases List.mem_append.1 hmem with hmem | hmem
  · exact h.2 r' hmem hseen
  · rw [List.mem_singleton.1 hmem] at hseen
    exact absurd hseen hx

/-- **A row that is outranked** changes nothing. -/
theorem isLatest_append_outranked {x : α} (hx : Outranked group time visible rows x) (r : α) :
    IsLatest group time visible (rows ++ [x]) r ↔ IsLatest group time visible rows r := by
  refine ⟨fun h => h.of_append, fun h => ⟨h.1, fun r' hmem hseen hgroup => ?_⟩⟩
  rcases List.mem_append.1 hmem with hmem | hmem
  · exact h.2 r' hmem hseen hgroup
  · rw [List.mem_singleton.1 hmem] at hseen hgroup ⊢
    obtain ⟨top, htop, hgtop, hseentop, hlt⟩ := hx hseen
    have hle := h.2 top htop hseentop (hgtop.trans hgroup)
    omega

/-- The rows that stay the latest ones of their groups when a row is added that is not seen or
outranked. -/
theorem filter_append [DecidableEq κ] [DecidablePred visible] {x : α}
    (hx : ¬ visible x ∨ Outranked group time visible rows x) :
    (rows ++ [x]).filter (fun r => IsLatest group time visible (rows ++ [x]) r) =
      rows.filter fun r => IsLatest group time visible rows r := by
  have hsame : ∀ r, IsLatest group time visible (rows ++ [x]) r ↔ IsLatest group time visible rows r :=
    fun r => hx.elim (fun h => isLatest_append_hidden h r) fun h => isLatest_append_outranked h r
  have hnot : ¬ IsLatest group time visible rows x :=
    hx.elim (fun h hlatest => h hlatest.1) Outranked.not_isLatest
  rw [List.filter_append]
  have hlast : [x].filter (fun r => IsLatest group time visible (rows ++ [x]) r) = [] := by
    refine List.filter_eq_nil_iff.2 fun r hr => ?_
    rw [List.mem_singleton.1 hr, decide_eq_true_eq, hsame]
    exact hnot
  rw [hlast, List.append_nil]
  exact List.filter_congr fun r _ => by rw [decide_eq_decide, hsame]

/-- **One latest row**: two of one group have the same time, and then they are outranked. -/
theorem latest_unique {r r' : α} (hr : r ∈ rows) (hr' : r' ∈ rows)
    (hlatest : IsLatest group time visible rows r) (hlatest' : IsLatest group time visible rows r')
    (hgroup : group r = group r')
    (hties : r ≠ r' → time r = time r' → Outranked group time visible rows r) : r = r' := by
  by_contra hne
  have hle := hlatest.2 r' hr' hlatest'.1 hgroup.symm
  have hge := hlatest'.2 r hr hlatest.1 hgroup
  exact (hties hne (by omega)).not_isLatest hlatest

end Latest
