import Mathlib.Tactic

/-!
# Tables with a key

A table is the list of its rows in insertion order; `key` reads the key of a row.

* `Table.find`, `Table.update`: the row of a key, and an update of the rows of a
  key, with the rules for reading one after the other.
* `Table.upsert`: replace the row of a key or insert it; `Table.insertOrdered`: the same in
  a table that is kept in the order of its keys, and `Table.insertAll` for several rows;
  `Table.entry`: a change of the value of a key in such a table.
* `Table.Grows R`: no row is lost, and what happens to a row is a step of `R`.
  Inserting a row and updating one are such changes (`Grows.insert`,
  `Grows.update`), and they compose (`Grows.trans`).
* `Table.Numbered`: a column that counts 1, 2, .., n.
-/

namespace Table

variable {α κ : Type} [DecidableEq κ] {key : α → κ} {k k' : κ} {r : α} {rows : List α}
  {R : α → α → Prop}

/-- The first row with the key `k`. -/
def find (key : α → κ) (k : κ) (rows : List α) : Option α := rows.find? fun r => key r = k

/-- Apply `f` to the rows with the key `k`. -/
def update (key : α → κ) (k : κ) (f : α → α) (rows : List α) : List α :=
  rows.map fun r => if key r = k then f r else r

theorem key_of_find (h : find key k rows = some r) : key r = k := by
  have := List.find?_some h; simpa using this

theorem mem_of_find (h : find key k rows = some r) : r ∈ rows := List.mem_of_find?_eq_some h

theorem find_eq_none (key : α → κ) : find key k rows = none ↔ ∀ r ∈ rows, key r ≠ k := by
  simp [find]

/-- With distinct keys every row is found under its own. -/
theorem find_of_mem (hd : (rows.map key).Nodup) (h : r ∈ rows) : find key (key r) rows = some r := by
  induction rows with
  | nil => simp at h
  | cons x rest ih =>
    rw [List.map_cons, List.nodup_cons] at hd
    rcases List.mem_cons.1 h with rfl | h
    · simp [find]
    · have hne : key x ≠ key r := fun he => hd.1 (he ▸ List.mem_map_of_mem h)
      simpa [find, hne] using ih hd.2 h

theorem find_append (rows rest : List α) :
    find key k (rows ++ rest) = (find key k rows).or (find key k rest) := List.find?_append

theorem find_update_self {f : α → α} (hf : ∀ r, key (f r) = key r) :
    find key k (update key k f rows) = (find key k rows).map f := by
  induction rows with
  | nil => rfl
  | cons x rest ih =>
    by_cases hx : key x = k
    · simp [find, update, hx, hf]
    · simpa [find, update, hx] using ih

theorem find_update_of_ne {f : α → α} (hf : ∀ r, key (f r) = key r) (hk : k' ≠ k) :
    find key k' (update key k f rows) = find key k' rows := by
  induction rows with
  | nil => rfl
  | cons x rest ih =>
    by_cases hx : key x = k
    · have hne : key x ≠ k' := by rw [hx]; exact hk.symm
      simpa [find, update, hx, hf, hne, hk.symm] using ih
    · by_cases hx' : key x = k'
      · simp [find, update, hx', hk]
      · simpa [find, update, hx, hx'] using ih

/-- What an update keeps of each row, it keeps of the table. -/
theorem map_update {β : Type} (g : α → β) {f : α → α} (hg : ∀ r, g (f r) = g r) :
    (update key k f rows).map g = rows.map g := by
  rw [update, List.map_map]
  refine List.map_congr_left fun r _ => ?_
  by_cases h : key r = k
  · rw [Function.comp_apply, if_pos h, hg]
  · rw [Function.comp_apply, if_neg h]

theorem map_key_update (key : α → κ) {f : α → α} (hf : ∀ r, key (f r) = key r) :
    (update key k f rows).map key = rows.map key := map_update key hf

/-- A row that is not there is not updated. -/
theorem update_of_not_mem {f : α → α} (h : ∀ r ∈ rows, key r ≠ k) : update key k f rows = rows := by
  conv_rhs => rw [← List.map_id rows]
  exact List.map_congr_left fun r hr => if_neg (h r hr)

theorem mem_update {f : α → α} (h : r ∈ update key k f rows) :
    ∃ r₀ ∈ rows, (key r₀ = k ∧ r = f r₀) ∨ (key r₀ ≠ k ∧ r = r₀) := by
  obtain ⟨r₀, hr₀, rfl⟩ := List.mem_map.1 h
  refine ⟨r₀, hr₀, ?_⟩
  by_cases hk : key r₀ = k
  · exact .inl ⟨hk, if_pos hk⟩
  · exact .inr ⟨hk, if_neg hk⟩

/-! ## Putting a row -/

/-- A table with a new row with a new key. -/
theorem nodup_append_key {key : α → κ} {rows : List α} {r : α}
    (h : (rows.map key).Nodup) (hnew : ∀ x ∈ rows, key x ≠ key r) :
    ((rows ++ [r]).map key).Nodup := by
  rw [List.map_append, List.nodup_append]
  refine ⟨h, List.nodup_singleton _, fun a ha b hb => ?_⟩
  obtain ⟨x, hx, rfl⟩ := List.mem_map.1 ha
  rw [List.map_singleton, List.mem_singleton] at hb
  rw [hb]
  exact hnew x hx

/-- Replace the rows with the key of `r`, or insert it at the end. -/
def upsert (key : α → κ) (r : α) (rows : List α) : List α :=
  if (find key (key r) rows).isSome then update key (key r) (fun _ => r) rows else rows ++ [r]

theorem find_upsert_self (r : α) (rows : List α) : find key (key r) (upsert key r rows) = some r := by
  unfold upsert
  split
  · rename_i h
    obtain ⟨r₀, hr₀⟩ := Option.isSome_iff_exists.1 h
    have key_r₀ := key_of_find hr₀
    clear h
    induction rows with
    | nil => simp [find] at hr₀
    | cons x rest ih =>
      by_cases hx : key x = key r
      · simp [find, update, hx]
      · have hrest : find key (key r) rest = some r₀ := by simpa [find, hx] using hr₀
        simpa [find, update, hx] using ih hrest
  · rename_i h
    rw [Option.not_isSome_iff_eq_none] at h
    rw [find_append, h]
    simp [find]

theorem find_upsert_of_ne (hk : k ≠ key r) : find key k (upsert key r rows) = find key k rows := by
  unfold upsert
  split
  · induction rows with
    | nil => rfl
    | cons x rest ih =>
      by_cases hx : key x = key r
      · have hne : key x ≠ k := fun h => hk (h.symm.trans hx)
        have hrest : find key k (update key (key r) (fun _ => r) rest) = find key k rest := by
          by_cases hsome : (find key (key r) rest).isSome
          · exact ih hsome
          · rw [Option.not_isSome_iff_eq_none, find_eq_none] at hsome
            have hsame : update key (key r) (fun _ => r) rest = rest :=
              (List.map_congr_left fun y hy => if_neg (hsome y hy)).trans (List.map_id _)
            rw [hsame]
        simpa [find, update, hx, hne, hk.symm] using hrest
      · rename_i h
        have hrest : (find key (key r) rest).isSome := by simpa [find, hx] using h
        by_cases hx' : key x = k
        · simp [find, update, hx', hk]
        · simpa [find, update, hx, hx'] using ih hrest
  · rw [find_append]
    simp [find, hk.symm]

theorem map_key_upsert_nodup (hd : (rows.map key).Nodup) : ((upsert key r rows).map key).Nodup := by
  unfold upsert
  split
  · have hkeys : (update key (key r) (fun _ => r) rows).map key = rows.map key := by
      rw [update, List.map_map]
      refine List.map_congr_left fun x _ => ?_
      by_cases h : key x = key r
      · simp [h]
      · simp [h]
    rw [hkeys]
    exact hd
  · rename_i h
    rw [Option.not_isSome_iff_eq_none, find_eq_none] at h
    rw [List.map_append, List.nodup_append]
    refine ⟨hd, List.nodup_singleton _, fun a ha b hb => ?_⟩
    obtain ⟨x, hx, rfl⟩ := List.mem_map.1 ha
    rw [List.map_singleton, List.mem_singleton] at hb
    rw [hb]
    exact h x hx

theorem mem_upsert {x : α} : x ∈ upsert key r rows ↔ x = r ∨ x ∈ rows ∧ key x ≠ key r := by
  unfold upsert
  split
  · rename_i h
    obtain ⟨r₀, hr₀⟩ := Option.isSome_iff_exists.1 h
    constructor
    · intro hx
      obtain ⟨y, hy, ⟨-, rfl⟩ | ⟨hne, rfl⟩⟩ := mem_update hx
      · exact .inl rfl
      · exact .inr ⟨hy, hne⟩
    · rintro (rfl | ⟨hx, hne⟩)
      · exact List.mem_map.2 ⟨r₀, mem_of_find hr₀, if_pos (key_of_find hr₀)⟩
      · exact List.mem_map.2 ⟨x, hx, if_neg hne⟩
  · rename_i h
    rw [Option.not_isSome_iff_eq_none, find_eq_none] at h
    rw [List.mem_append, List.mem_singleton]
    constructor
    · rintro (hx | rfl)
      · exact .inr ⟨hx, h x hx⟩
      · exact .inl rfl
    · rintro (rfl | ⟨hx, -⟩)
      · exact .inr rfl
      · exact .inl hx

/-- `BTreeMap::insert`: the rows are in the order of their keys, each key once. -/
def insertOrdered [LE κ] [DecidableLE κ] (key : α → κ) (r : α) (rows : List α) : List α :=
  (rows.filter fun x => key x ≠ key r).orderedInsert (fun a b => key a ≤ key b) r

theorem mem_insertOrdered [LE κ] [DecidableLE κ] {x : α} :
    x ∈ insertOrdered key r rows ↔ x = r ∨ x ∈ rows ∧ key x ≠ key r := by
  simp [insertOrdered]

/-- Inserting keeps the rows in the order of their keys. -/
theorem pairwise_insertOrdered {κ : Type} [LinearOrder κ] {key : α → κ}
    (h : rows.Pairwise fun x y => key x < key y) :
    (insertOrdered key r rows).Pairwise fun x y => key x < key y := by
  have hrows : (rows.filter fun x => key x ≠ key r).Pairwise fun x y => key x < key y :=
    h.filter _
  have hne : ∀ x ∈ rows.filter fun x => key x ≠ key r, key x ≠ key r := fun x hx => by
    simpa using (List.mem_filter.1 hx).2
  unfold insertOrdered
  generalize (rows.filter fun x => key x ≠ key r) = l at hrows hne
  induction l with
  | nil => simp
  | cons x l ih =>
    obtain ⟨hx, hl⟩ := List.pairwise_cons.1 hrows
    rw [List.orderedInsert_cons]
    split
    · rename_i hle
      have hlt : key r < key x := lt_of_le_of_ne hle (hne x List.mem_cons_self).symm
      refine List.pairwise_cons.2 ⟨fun y hy => ?_, hrows⟩
      rcases List.mem_cons.1 hy with rfl | hy
      · exact hlt
      · exact hlt.trans (hx y hy)
    · rename_i hnot
      refine List.pairwise_cons.2 ⟨fun y hy => ?_, ih hl fun y hy => hne y (List.mem_cons_of_mem _ hy)⟩
      rcases (List.mem_orderedInsert _).1 hy with rfl | hy
      · exact not_le.1 hnot
      · exact hx y hy

theorem nodup_insertOrdered [LE κ] [DecidableLE κ] (h : (rows.map key).Nodup) :
    ((insertOrdered key r rows).map key).Nodup := by
  have hperm := (List.perm_orderedInsert (fun a b => key a ≤ key b) r
    (rows.filter fun x => key x ≠ key r)).map key
  refine hperm.nodup_iff.2 (List.nodup_cons.2 ⟨fun hmem => ?_, h.sublist (List.filter_sublist.map key)⟩)
  obtain ⟨x, hx, heq⟩ := List.mem_map.1 hmem
  exact of_decide_eq_true (List.mem_filter.1 hx).2 heq

/-- A row that does not match is passed over. -/
theorem find?_orderedInsert {R : α → α → Prop} [DecidableRel R] {p : α → Bool} {r : α}
    (hr : p r = false) (rows : List α) : (rows.orderedInsert R r).find? p = rows.find? p := by
  induction rows with
  | nil => simp [hr]
  | cons x rest ih =>
    rw [List.orderedInsert_cons]
    split
    · rw [List.find?_cons, hr]
    · rw [List.find?_cons, List.find?_cons, ih]

theorem find_insertOrdered_of_ne [LE κ] [DecidableLE κ] (hk : k ≠ key r) :
    find key k (insertOrdered key r rows) = find key k rows := by
  unfold find insertOrdered
  rw [find?_orderedInsert (by simpa using Ne.symm hk), List.find?_filter]
  refine congrArg (fun p => List.find? p rows) (funext fun x => ?_)
  by_cases hx : key x = k
  · simp [hx, hk]
  · simp [hx]

theorem find_insertOrdered_self [LE κ] [DecidableLE κ] :
    find key (key r) (insertOrdered key r rows) = some r := by
  have hrest : ∀ x ∈ rows.filter fun x => key x ≠ key r, key x ≠ key r := fun x hx => by
    simpa using (List.mem_filter.1 hx).2
  unfold find insertOrdered
  generalize (rows.filter fun x => key x ≠ key r) = l at hrest
  induction l with
  | nil => simp
  | cons x l ih =>
    rw [List.orderedInsert_cons]
    split
    · simp
    · rw [List.find?_cons_of_neg (by simpa using hrest x List.mem_cons_self)]
      exact ih fun y hy => hrest y (List.mem_cons_of_mem _ hy)

/-- Insert the rows one after the other. -/
def insertAll [LE κ] [DecidableLE κ] (key : α → κ) (new rows : List α) : List α :=
  new.foldl (fun rows r => insertOrdered key r rows) rows

theorem find_reverse_cons (x : α) (rows : List α) :
    find key k (x :: rows).reverse = (find key k rows.reverse).or (if key x = k then some x else none) := by
  rw [List.reverse_cons, find_append]
  by_cases hx : key x = k
  · simp [find, hx]
  · simp [find, hx]

/-- **The last row of a key counts**, and a row stays unless its key is inserted. -/
theorem mem_insertAll [LE κ] [DecidableLE κ] {new : List α} :
    r ∈ insertAll key new rows ↔ find key (key r) new.reverse = some r ∨
      find key (key r) new.reverse = none ∧ r ∈ rows := by
  induction new generalizing rows with
  | nil => simp [insertAll, find]
  | cons x new ih =>
    show r ∈ insertAll key new (insertOrdered key x rows) ↔ _
    rw [ih, find_reverse_cons, mem_insertOrdered]
    cases hlast : find key (key r) new.reverse with
    | some y => simp
    | none =>
      by_cases hx : key x = key r
      · simp [hx, eq_comm]
      · have hne : r ≠ x := fun h => hx (congrArg key h).symm
        simp [hx, hne, Ne.symm hx]

theorem pairwise_insertAll {κ : Type} [LinearOrder κ] {key : α → κ} {new : List α}
    (h : rows.Pairwise fun x y => key x < key y) :
    (insertAll key new rows).Pairwise fun x y => key x < key y := by
  induction new generalizing rows with
  | nil => exact h
  | cons x new ih => exact ih (pairwise_insertOrdered h)

/-- `*map.entry(k).or_insert(d)`, changed by `f`. -/
def entry [LE κ] [DecidableLE κ] (k : κ) (d : α) (f : α → α) (rows : List (κ × α)) : List (κ × α) :=
  insertOrdered Prod.fst (k, f (((find Prod.fst k rows).map Prod.snd).getD d)) rows

theorem mem_map_entry [LE κ] [DecidableLE κ] {d : α} {f : α → α} {rows : List (κ × α)} :
    k' ∈ (entry k d f rows).map Prod.fst ↔ k' = k ∨ k' ∈ rows.map Prod.fst := by
  simp only [entry, List.mem_map, mem_insertOrdered]
  constructor
  · rintro ⟨x, rfl | ⟨hx, -⟩, rfl⟩
    · exact .inl rfl
    · exact .inr ⟨x, hx, rfl⟩
  · rintro (rfl | ⟨x, hx, rfl⟩)
    · exact ⟨_, .inl rfl, rfl⟩
    · by_cases hk : x.1 = k
      · exact ⟨_, .inl rfl, hk.symm⟩
      · exact ⟨x, .inr ⟨hx, hk⟩, rfl⟩

section Maps

variable {β : Type} {key' : β → κ} {f : α → β}

theorem find_map (hf : ∀ r, key' (f r) = key r) : find key' k (rows.map f) = (find key k rows).map f := by
  induction rows with
  | nil => rfl
  | cons x rest ih =>
    by_cases hx : key x = k
    · simp [find, hf, hx]
    · have ih : List.find? (fun r => decide (key' r = k)) (rest.map f) =
          (List.find? (fun r => decide (key r = k)) rest).map f := ih
      rw [List.map_cons, find, find, List.find?_cons_of_neg (by simpa [hf] using hx),
        List.find?_cons_of_neg (by simpa using hx), ih]

/-- Inserting commutes with a map that keeps the keys. -/
theorem map_insertOrdered [LE κ] [DecidableLE κ] (hf : ∀ r, key' (f r) = key r) (r : α) (rows : List α) :
    (insertOrdered key r rows).map f = insertOrdered key' (f r) (rows.map f) := by
  unfold insertOrdered
  rw [List.map_orderedInsert (fun a b => key a ≤ key b) (fun a b => key' a ≤ key' b) f _ r
    (fun a _ => by rw [hf, hf]) fun a _ => by rw [hf, hf], List.filter_map]
  simp [Function.comp_def, hf]

end Maps

/-! ## Growth -/

/-- Every row of the first table is still there, changed by a step of `R` at most. -/
def Grows (key : α → κ) (R : α → α → Prop) (rows rows' : List α) : Prop :=
  ∀ k r, find key k rows = some r → ∃ r', find key k rows' = some r' ∧ R r r'

theorem Grows.refl (hR : ∀ r, R r r) (rows : List α) : Grows key R rows rows :=
  fun _ r h => ⟨r, h, hR r⟩

theorem Grows.trans (hR : ∀ a b c, R a b → R b c → R a c) {rows₁ rows₂ rows₃ : List α}
    (h₁ : Grows key R rows₁ rows₂) (h₂ : Grows key R rows₂ rows₃) : Grows key R rows₁ rows₃ := by
  intro k r h
  obtain ⟨r', h', hr'⟩ := h₁ k r h
  obtain ⟨r'', h'', hr''⟩ := h₂ k r' h'
  exact ⟨r'', h'', hR _ _ _ hr' hr''⟩

theorem Grows.insert (hR : ∀ r, R r r) (rows : List α) (x : α) :
    Grows key R rows (rows ++ [x]) := by
  intro k r h
  refine ⟨r, ?_, hR r⟩
  rw [find_append, h]; rfl

theorem Grows.update (hR : ∀ r, R r r) {f : α → α} (hf : ∀ r, key (f r) = key r)
    (hstep : ∀ r, find key k rows = some r → R r (f r)) :
    Grows key R rows (Table.update key k f rows) := by
  intro k' r h
  by_cases hk : k' = k
  · subst hk
    exact ⟨f r, by rw [find_update_self hf, h]; rfl, hstep r h⟩
  · exact ⟨r, by rw [find_update_of_ne hf hk, h], hR r⟩

/-! ## Numbered columns -/

/-- The list 1, 2, .., n. -/
def Numbered (l : List ℤ) : Prop := l = (List.range l.length).map fun i : ℕ => (i : ℤ) + 1

theorem Numbered.mem_iff {l : List ℤ} (h : Numbered l) {n : ℤ} :
    n ∈ l ↔ 1 ≤ n ∧ n ≤ l.length := by
  rw [h]
  simp only [List.mem_map, List.mem_range, List.length_map, List.length_range]
  constructor
  · rintro ⟨i, hi, rfl⟩; omega
  · rintro ⟨h₁, h₂⟩; exact ⟨(n - 1).toNat, by omega, by omega⟩

theorem Numbered.nodup {l : List ℤ} (h : Numbered l) : l.Nodup := by
  rw [h]
  exact List.nodup_range.map fun i j hij => by simpa using hij

theorem Numbered.snoc {l : List ℤ} (h : Numbered l) : Numbered (l ++ [(l.length : ℤ) + 1]) := by
  unfold Numbered at h ⊢
  rw [List.length_append, List.length_singleton, List.range_succ, List.map_append, ← h]
  rfl

theorem Numbered.of_snoc {l : List ℤ} {n : ℤ} (h : Numbered (l ++ [n])) :
    Numbered l ∧ n = (l.length : ℤ) + 1 := by
  unfold Numbered at h
  rw [List.length_append, List.length_singleton, List.range_succ, List.map_append] at h
  obtain ⟨hl, hn⟩ := List.append_inj' h rfl
  exact ⟨hl, List.singleton_inj.1 hn⟩

/-- The largest number of a numbered column is its length. -/
theorem Numbered.max {l : List ℤ} (h : Numbered l) : l.max?.getD 0 = l.length := by
  cases hl : l with
  | nil => rfl
  | cons x rest =>
    rw [← hl]
    have hpos : 0 < l.length := by rw [hl]; simp
    have hmax : l.max? = some (l.length : ℤ) := by
      rw [List.max?_eq_some_iff]
      exact ⟨h.mem_iff.2 ⟨by omega, le_refl _⟩, fun b hb => (h.mem_iff.1 hb).2⟩
    rw [hmax]; rfl

end Table

/-!
## Upserts that update some columns

`INSERT .. ON CONFLICT(key) DO UPDATE SET ..`: a row that is new is inserted, one that is there takes
what `merge` makes of it and the new one.

* `mem_upsertEach`: what a table has after rows with different keys were put into it.
* `nodup_upsertWith`: the keys stay different.
-/

namespace Table

variable {α κ : Type} [DecidableEq κ] {key : α → κ} {merge : α → α → α} {k : κ} {r x : α}
  {new rows : List α}

/-- What is stored when `r` is put into the table. -/
def merged (key : α → κ) (merge : α → α → α) (r : α) (rows : List α) : α :=
  match find key (key r) rows with
  | some old => merge old r
  | none => r

def upsertWith (key : α → κ) (merge : α → α → α) (r : α) (rows : List α) : List α :=
  upsert key (merged key merge r rows) rows

/-- Put the rows one after the other. -/
def upsertEach (key : α → κ) (merge : α → α → α) (new rows : List α) : List α :=
  new.foldl (fun rows r => upsertWith key merge r rows) rows

theorem key_merged (hmerge : ∀ old r, key old = key r → key (merge old r) = key r) (r : α)
    (rows : List α) : key (merged key merge r rows) = key r := by
  unfold merged
  cases h : find key (key r) rows with
  | none => rfl
  | some old => exact hmerge old r (key_of_find h)

theorem merged_of_none (h : find key (key r) rows = none) : merged key merge r rows = r := by
  rw [merged, h]

theorem merged_of_some {old : α} (h : find key (key r) rows = some old) :
    merged key merge r rows = merge old r := by
  rw [merged, h]

theorem merged_eq_of_find {rows' : List α} (h : find key (key r) rows = find key (key r) rows') :
    merged key merge r rows = merged key merge r rows' := by
  rw [merged, merged, h]

theorem mem_upsertWith (hmerge : ∀ old r, key old = key r → key (merge old r) = key r) :
    x ∈ upsertWith key merge r rows ↔ x = merged key merge r rows ∨ x ∈ rows ∧ key x ≠ key r := by
  rw [upsertWith, mem_upsert, key_merged hmerge]

theorem find_upsertWith_self (hmerge : ∀ old r, key old = key r → key (merge old r) = key r) (r : α)
    (rows : List α) :
    find key (key r) (upsertWith key merge r rows) = some (merged key merge r rows) := by
  have h : find key (key (merged key merge r rows)) (upsertWith key merge r rows) =
      some (merged key merge r rows) := find_upsert_self _ rows
  rwa [key_merged hmerge] at h

theorem find_upsertWith_of_ne (hmerge : ∀ old r, key old = key r → key (merge old r) = key r)
    (hk : k ≠ key r) : find key k (upsertWith key merge r rows) = find key k rows :=
  find_upsert_of_ne fun h => hk (h.trans (key_merged hmerge r rows))

theorem nodup_upsertWith (h : (rows.map key).Nodup) :
    ((upsertWith key merge r rows).map key).Nodup :=
  map_key_upsert_nodup h

/-- **What a table has** after rows with different keys were put into it. -/
theorem mem_upsertEach (hmerge : ∀ old r, key old = key r → key (merge old r) = key r)
    (hnew : (new.map key).Nodup) :
    x ∈ upsertEach key merge new rows ↔
      (∃ r ∈ new, x = merged key merge r rows) ∨ x ∈ rows ∧ key x ∉ new.map key := by
  induction new generalizing rows with
  | nil => simp [upsertEach]
  | cons r new ih =>
    obtain ⟨hr, hnew⟩ := List.nodup_cons.1 hnew
    change x ∈ upsertEach key merge new (upsertWith key merge r rows) ↔ _
    rw [ih hnew, mem_upsertWith hmerge]
    -- a later row has another key, so that it finds what it found before
    have hlater : ∀ r' ∈ new, merged key merge r' (upsertWith key merge r rows) =
        merged key merge r' rows := by
      intro r' hr'
      refine merged_eq_of_find (find_upsertWith_of_ne hmerge fun heq => hr ?_)
      rw [← heq]
      exact List.mem_map_of_mem hr'
    constructor
    · rintro (⟨r', hr', rfl⟩ | ⟨rfl | ⟨hx, hne⟩, hnot⟩)
      · exact .inl ⟨r', List.mem_cons_of_mem r hr', hlater r' hr'⟩
      · exact .inl ⟨r, List.mem_cons_self, rfl⟩
      · refine .inr ⟨hx, fun hmem => ?_⟩
        rcases List.mem_cons.1 hmem with heq | hmem
        · exact hne heq
        · exact hnot hmem
    · rintro (⟨r', hr', rfl⟩ | ⟨hx, hnot⟩)
      · rcases List.mem_cons.1 hr' with rfl | hr'
        · refine .inr ⟨.inl rfl, ?_⟩
          rw [key_merged hmerge]
          exact hr
        · exact .inl ⟨r', hr', (hlater r' hr').symm⟩
      · exact .inr ⟨.inr ⟨hx, fun heq => hnot (heq ▸ List.mem_cons_self)⟩,
          fun hmem => hnot (List.mem_cons_of_mem _ hmem)⟩

theorem nodup_upsertEach (h : (rows.map key).Nodup) :
    ((upsertEach key merge new rows).map key).Nodup := by
  induction new generalizing rows with
  | nil => exact h
  | cons r new ih => exact ih (nodup_upsertWith h)

end Table
