import Astock.Lib.Table

/-!
# Registries

Things are registered one by one under a key. Two that show a different face under one key are a
conflict; of those that show the same face the one of the highest rank is kept.

* `Registry.Sums`: what the registry knows of the things registered so far.
* `mem_conflicts_iff`, `kept_perm`: neither the conflicts nor what is kept under a key without one
  depends on the order of registration.
-/

/-- The things kept, and the keys under which there is a conflict. -/
structure Registry (α κ : Type) where
  rows : List α := []
  conflicts : List κ := []

namespace Registry

variable {α κ γ ρ : Type} [DecidableEq κ] [DecidableEq γ] [LinearOrder ρ]
variable (key : α → κ) (face : α → γ) (rank : α → ρ) (valid : α → Bool)

/-- What is kept under a key. -/
def kept (r : Registry α κ) (k : κ) : Option α := Table.find key k r.rows

/-- Note a conflict. -/
def refuse (r : Registry α κ) (k : κ) : Registry α κ := { r with conflicts := k :: r.conflicts }

/-- Keep something. -/
def keep (r : Registry α κ) (a : α) : Registry α κ := { r with rows := Table.upsert key a r.rows }

def register (r : Registry α κ) (a : α) : Registry α κ :=
  if valid a then
    match r.kept key (key a) with
    | none => r.keep key a
    | some b =>
      if face b ≠ face a then r.refuse (key a)
      else if rank b < rank a then r.keep key a
      else r
  else r.refuse (key a)

variable {key face rank valid}

@[simp] theorem kept_refuse (r : Registry α κ) (k k' : κ) : (r.refuse k).kept key k' = r.kept key k' :=
  rfl

@[simp] theorem conflicts_keep (r : Registry α κ) (a : α) : (r.keep key a).conflicts = r.conflicts :=
  rfl

theorem kept_keep (r : Registry α κ) (a : α) (k : κ) :
    (r.keep key a).kept key k = if k = key a then some a else r.kept key k := by
  split
  · rename_i h
    rw [h]
    exact Table.find_upsert_self a r.rows
  · rename_i h
    exact Table.find_upsert_of_ne h

variable (key face rank valid) in
/-- What the registry knows of the things registered so far. -/
structure Sums (l : List α) (r : Registry α κ) : Prop where
  sound : ∀ k a, r.kept key k = some a → a ∈ l ∧ key a = k ∧ valid a = true
  kept : ∀ a ∈ l, valid a = true → ∃ b, r.kept key (key a) = some b ∧
    (key a ∉ r.conflicts → face b = face a ∧ rank a ≤ rank b)
  refused : ∀ a ∈ l, valid a = false → key a ∈ r.conflicts
  conflict : ∀ k ∈ r.conflicts, ∃ a ∈ l, key a = k ∧
    (valid a = false ∨ ∃ b ∈ l, key b = k ∧ valid a = true ∧ valid b = true ∧ face a ≠ face b)

theorem sums_nil : Sums key face rank valid [] ({} : Registry α κ) where
  sound _ _ h := nomatch h
  kept _ h := nomatch h
  refused _ h := nomatch h
  conflict _ h := nomatch h

variable {l : List α} {r : Registry α κ} {a b : α}

/-- A conflict is noted about something registered before, or about `a`. -/
theorem Sums.refuse (h : Sums key face rank valid l r)
    (ha : valid a = false ∨
      ∃ b ∈ l, key b = key a ∧ valid a = true ∧ valid b = true ∧ face a ≠ face b)
    (hkept : valid a = true → ∃ b, r.kept key (key a) = some b) :
    Sums key face rank valid (l ++ [a]) (r.refuse (key a)) where
  sound k b hb := by
    obtain ⟨hmem, hrest⟩ := h.sound k b hb
    exact ⟨List.mem_append_left _ hmem, hrest⟩
  kept c hc hvalid := by
    have hout : ∀ k, k ∉ (r.refuse (key a)).conflicts → k ∉ r.conflicts :=
      fun k hk hmem => hk (List.mem_cons_of_mem _ hmem)
    obtain hc | hc := List.mem_append.1 hc
    · obtain ⟨b, hb, hbest⟩ := h.kept c hc hvalid
      exact ⟨b, hb, fun hclear => hbest (hout _ hclear)⟩
    · obtain rfl := List.mem_singleton.1 hc
      obtain ⟨b, hb⟩ := hkept hvalid
      exact ⟨b, hb, fun hclear => absurd List.mem_cons_self hclear⟩
  refused c hc hinvalid := by
    obtain hc | hc := List.mem_append.1 hc
    · exact List.mem_cons_of_mem _ (h.refused c hc hinvalid)
    · obtain rfl := List.mem_singleton.1 hc
      exact List.mem_cons_self
  conflict k hk := by
    obtain rfl | hk := List.mem_cons.1 hk
    · refine ⟨a, by simp, rfl, ha.imp id ?_⟩
      rintro ⟨b, hb, hrest⟩
      exact ⟨b, List.mem_append_left _ hb, hrest⟩
    · obtain ⟨c, hc, hkey, hcase⟩ := h.conflict k hk
      refine ⟨c, List.mem_append_left _ hc, hkey, hcase.imp id ?_⟩
      rintro ⟨b, hb, hrest⟩
      exact ⟨b, List.mem_append_left _ hb, hrest⟩

/-- A thing is kept when it shows the face of what was kept before, and outranks it. -/
theorem Sums.keep (h : Sums key face rank valid l r) (hvalid : valid a = true)
    (hold : ∀ b, r.kept key (key a) = some b → face b = face a ∧ rank b < rank a) :
    Sums key face rank valid (l ++ [a]) (r.keep key a) where
  sound k b hb := by
    rw [kept_keep] at hb
    split at hb
    · rename_i hk
      obtain rfl := Option.some.inj hb
      exact ⟨by simp, hk.symm, hvalid⟩
    · obtain ⟨hmem, hrest⟩ := h.sound k b hb
      exact ⟨List.mem_append_left _ hmem, hrest⟩
  kept c hc hcvalid := by
    rw [kept_keep]
    by_cases hkey : key c = key a
    · refine ⟨a, if_pos hkey, fun hclear => ?_⟩
      obtain hc | hc := List.mem_append.1 hc
      · obtain ⟨b, hb, hbest⟩ := h.kept c hc hcvalid
        obtain ⟨hface, hrank⟩ := hbest hclear
        obtain ⟨hface', hrank'⟩ := hold b (hkey ▸ hb)
        exact ⟨hface'.symm.trans hface, hrank.trans hrank'.le⟩
      · obtain rfl := List.mem_singleton.1 hc
        exact ⟨rfl, le_rfl⟩
    · obtain hc | hc := List.mem_append.1 hc
      · rw [if_neg hkey]
        exact h.kept c hc hcvalid
      · exact absurd (congrArg key (List.mem_singleton.1 hc)) hkey
  refused c hc hinvalid := by
    obtain hc | hc := List.mem_append.1 hc
    · exact h.refused c hc hinvalid
    · obtain rfl := List.mem_singleton.1 hc
      rw [hinvalid] at hvalid
      cases hvalid
  conflict k hk := by
    obtain ⟨c, hc, hkey, hcase⟩ := h.conflict k hk
    refine ⟨c, List.mem_append_left _ hc, hkey, hcase.imp id ?_⟩
    rintro ⟨b, hb, hrest⟩
    exact ⟨b, List.mem_append_left _ hb, hrest⟩

/-- A thing that shows the face of what is kept and does not outrank it changes nothing. -/
theorem Sums.same (h : Sums key face rank valid l r) (hvalid : valid a = true)
    (hb : r.kept key (key a) = some b) (hface : face b = face a) (hrank : rank a ≤ rank b) :
    Sums key face rank valid (l ++ [a]) r where
  sound k c hc := by
    obtain ⟨hmem, hrest⟩ := h.sound k c hc
    exact ⟨List.mem_append_left _ hmem, hrest⟩
  kept c hc hcvalid := by
    obtain hc | hc := List.mem_append.1 hc
    · exact h.kept c hc hcvalid
    · obtain rfl := List.mem_singleton.1 hc
      exact ⟨b, hb, fun _ => ⟨hface, hrank⟩⟩
  refused c hc hinvalid := by
    obtain hc | hc := List.mem_append.1 hc
    · exact h.refused c hc hinvalid
    · obtain rfl := List.mem_singleton.1 hc
      rw [hinvalid] at hvalid
      cases hvalid
  conflict k hk := by
    obtain ⟨c, hc, hkey, hcase⟩ := h.conflict k hk
    refine ⟨c, List.mem_append_left _ hc, hkey, hcase.imp id ?_⟩
    rintro ⟨b, hb, hrest⟩
    exact ⟨b, List.mem_append_left _ hb, hrest⟩

/-- **One registration.** -/
theorem Sums.register (h : Sums key face rank valid l r) (a : α) :
    Sums key face rank valid (l ++ [a]) (register key face rank valid r a) := by
  rw [Registry.register]
  cases hvalid : valid a with
  | false =>
    rw [if_neg (by decide)]
    exact h.refuse (.inl hvalid) fun hvalid' => nomatch hvalid.symm.trans hvalid'
  | true =>
    rw [if_pos rfl]
    split
    · rename_i hnone
      exact h.keep hvalid fun b hb => nomatch hnone.symm.trans hb
    · rename_i b hb
      obtain ⟨hmem, hkey, hbvalid⟩ := h.sound _ b hb
      split
      · rename_i hface
        exact h.refuse (.inr ⟨b, hmem, hkey, hvalid, hbvalid, Ne.symm hface⟩) fun _ => ⟨b, hb⟩
      · rename_i hface
        split
        · rename_i hrank
          refine h.keep hvalid fun c hc => ?_
          obtain rfl := Option.some.inj (hb.symm.trans hc)
          exact ⟨not_not.1 hface, hrank⟩
        · rename_i hrank
          exact h.same hvalid hb (not_not.1 hface) (not_lt.1 hrank)

/-- **All registrations**, by induction from the end. -/
theorem sums (l : List α) :
    Sums key face rank valid l (l.foldl (register key face rank valid) {}) := by
  induction l using List.reverseRecOn with
  | nil => exact sums_nil
  | append_singleton l a ih =>
    rw [List.foldl_append]
    exact ih.register a

/-- What shows two faces is a conflict. -/
theorem Sums.mem_conflicts_iff (h : Sums key face rank valid l r) {k : κ} :
    k ∈ r.conflicts ↔ ∃ a ∈ l, key a = k ∧
      (valid a = false ∨ ∃ b ∈ l, key b = k ∧ valid a = true ∧ valid b = true ∧ face a ≠ face b) := by
  refine ⟨h.conflict k, ?_⟩
  rintro ⟨a, ha, rfl, hinvalid | ⟨b, hb, hkey, hvalid, hvalid', hface⟩⟩
  · exact h.refused a ha hinvalid
  · by_contra hclear
    obtain ⟨c, hc, hbest⟩ := h.kept a ha hvalid
    obtain ⟨c', hc', hbest'⟩ := h.kept b hb hvalid'
    rw [hkey] at hc' hbest'
    obtain rfl := Option.some.inj (hc.symm.trans hc')
    exact hface ((hbest hclear).1.symm.trans (hbest' hclear).1)

/-- **Conflicts do not depend on the order.** -/
theorem mem_conflicts_perm {l' : List α} {r' : Registry α κ} (h : Sums key face rank valid l r)
    (h' : Sums key face rank valid l' r') (hperm : l.Perm l') {k : κ} :
    k ∈ r.conflicts ↔ k ∈ r'.conflicts := by
  simp only [h.mem_conflicts_iff, h'.mem_conflicts_iff, hperm.mem_iff]

/-- **Nor does what is kept** where there is none, up to what neither face nor rank shows. -/
theorem kept_perm {l' : List α} {r' : Registry α κ} (h : Sums key face rank valid l r)
    (h' : Sums key face rank valid l' r') (hperm : l.Perm l') {k : κ} (hclear : k ∉ r.conflicts)
    {a : α} (ha : r.kept key k = some a) :
    ∃ b, r'.kept key k = some b ∧ face b = face a ∧ rank b = rank a := by
  have hclear' : k ∉ r'.conflicts := fun hk => hclear ((mem_conflicts_perm h h' hperm).2 hk)
  obtain ⟨hmem, rfl, hvalid⟩ := h.sound k a ha
  obtain ⟨b, hb, hbest⟩ := h'.kept a (hperm.mem_iff.1 hmem) hvalid
  obtain ⟨hface, hrank⟩ := hbest hclear'
  obtain ⟨hmem', hkey, hvalid'⟩ := h'.sound _ b hb
  obtain ⟨c, hc, hbest'⟩ := h.kept b (hperm.mem_iff.2 hmem') hvalid'
  rw [hkey] at hc hbest'
  obtain rfl := Option.some.inj (ha.symm.trans hc)
  exact ⟨b, hb, hface, le_antisymm (hbest' hclear).2 hrank⟩

end Registry
