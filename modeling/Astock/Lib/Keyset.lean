import Mathlib.Tactic

/-!
# Keyset pagination

A page of a table is the first `limit` rows after a cursor, in key order; when the
table has more, the key of the last of them is the cursor of the next page. A walk
reads page after page, each from the table as it is then.

* `walk_sorted`: **a walk shows its rows in key order, none twice**, whatever happens
  to the table between two requests.
* `walk_complete`: **a walk that ends has shown every row** that was there all along.
* `walk_unended`: a walk that goes on shows a row with each request.
* `walk_static`: a walk through a table that does not change shows it from the cursor on.
-/

namespace Keyset

variable {α κ : Type} [LinearOrder κ] (key : α → κ)

/-- The rows after a cursor, in key order. -/
def after (c : κ) (rows : List α) : List α :=
  (rows.filter fun r => c < key r).insertionSort fun a b => key a ≤ key b

structure Page (α κ : Type) where
  items : List α
  next : Option κ

/-- The page after a cursor. One row more than the limit is read, to see whether there
is a next page. -/
def page (limit : ℕ) (c : κ) (rows : List α) : Page α κ :=
  let found := (after key c rows).take (limit + 1)
  if limit < found.length then
    { items := found.take limit, next := (found.take limit).getLast?.map key }
  else { items := found, next := none }

/-- The pages read from the given tables, one for each request, and whether the walk
has come to its end. -/
def walk (limit : ℕ) : κ → List (List α) → List (List α) × Bool
  | _, [] => ([], false)
  | c, rows :: rest =>
    match (page key limit c rows).next with
    | none => ([(page key limit c rows).items], true)
    | some k =>
      let w := walk limit k rest
      ((page key limit c rows).items :: w.1, w.2)

variable {key} {limit : ℕ} {c : κ} {rows : List α}

theorem mem_after {r : α} : r ∈ after key c rows ↔ r ∈ rows ∧ c < key r := by
  simp [after, List.mem_insertionSort]

/-- With distinct keys, the rows after a cursor are in strict order. -/
theorem after_sorted (hd : (rows.map key).Nodup) :
    ((after key c rows).map key).Pairwise (· < ·) := by
  have hle : ((after key c rows).map key).Pairwise (· ≤ ·) := by
    rw [List.pairwise_map]
    have : Std.Total fun a b : α => key a ≤ key b := ⟨fun a b => le_total (key a) (key b)⟩
    have : IsTrans α fun a b : α => key a ≤ key b := ⟨fun _ _ _ => le_trans⟩
    exact List.pairwise_insertionSort _ _
  have hnodup : ((after key c rows).map key).Nodup := by
    refine ((List.perm_insertionSort _ _).map key).nodup_iff.2 ?_
    exact hd.sublist (List.filter_sublist.map key)
  exact (hle.and hnodup).imp fun h => lt_of_le_of_ne h.1 h.2

/-- In strict order, the keys that are above a given one are the rows after it. -/
theorem after_eq_of_split (hd : (rows.map key).Nodup) {k : κ} {first rest : List α}
    (hsplit : after key c rows = first ++ rest) (hck : c < k) (hle : ∀ r ∈ first, key r ≤ k)
    (hgt : ∀ r ∈ rest, k < key r) : after key k rows = rest := by
  have hsorted := after_sorted (c := c) hd
  rw [hsplit, List.map_append, List.pairwise_append] at hsorted
  have hmem (r : α) : r ∈ after key k rows ↔ r ∈ rest := by
    have hin : r ∈ rows ∧ c < key r ↔ r ∈ first ∨ r ∈ rest := by
      rw [← mem_after, hsplit, List.mem_append]
    constructor
    · intro h
      obtain ⟨hr, hlt⟩ := mem_after.1 h
      rcases hin.1 ⟨hr, hck.trans hlt⟩ with hfirst | hrest
      · exact absurd (hle r hfirst) (not_le.2 hlt)
      · exact hrest
    · intro h
      exact mem_after.2 ⟨(hin.2 (.inr h)).1, hgt r h⟩
  have hafter := after_sorted (c := k) hd
  have hdistinct {l : List α} (h : (l.map key).Pairwise (· < ·)) : l.Nodup :=
    List.Nodup.of_map key (h.imp fun h => h.ne)
  have hperm : (after key k rows).Perm rest :=
    (List.perm_ext_iff_of_nodup (hdistinct hafter) (hdistinct hsorted.2.1)).2 hmem
  rw [List.pairwise_map] at hafter
  refine hperm.eq_of_pairwise (fun a b _ _ hab hba => absurd hba (not_lt.2 hab.le)) hafter ?_
  exact List.pairwise_map.1 hsorted.2.1

/-- **A page** is the last one and holds all rows after the cursor, or is full, and the
rows after its own cursor are the ones it leaves out. -/
theorem page_cases (hl : 0 < limit) (hd : (rows.map key).Nodup) :
    ((page key limit c rows).next = none ∧ (page key limit c rows).items = after key c rows) ∨
    ∃ k, (page key limit c rows).next = some k ∧
      after key c rows = (page key limit c rows).items ++ after key k rows ∧
      (∀ r ∈ (page key limit c rows).items, key r ≤ k) ∧
      c < k ∧ 0 < (page key limit c rows).items.length := by
  by_cases hmore : limit < (after key c rows).length
  · right
    have htake : ((after key c rows).take (limit + 1)).take limit = (after key c rows).take limit := by
      rw [List.take_take, Nat.min_eq_left (Nat.le_succ limit)]
    have hpage : page key limit c rows =
        { items := (after key c rows).take limit
          next := ((after key c rows).take limit).getLast?.map key } := by
      show (if _ then _ else _) = _
      rw [htake, if_pos (by rw [List.length_take]; omega)]
    have hsorted := after_sorted (c := c) hd
    have hsplit := List.take_append_drop limit (after key c rows)
    have hlen : ((after key c rows).take limit).length = limit := List.length_take_of_le hmore.le
    generalize hfirst : (after key c rows).take limit = first at hpage hsplit hlen
    generalize (after key c rows).drop limit = rest at hsplit
    obtain ⟨init, last, rfl⟩ : ∃ init last, first = init ++ [last] := by
      refine ⟨first.dropLast, first.getLast (by rintro rfl; simp at hlen; omega), ?_⟩
      exact (List.dropLast_append_getLast _).symm
    rw [← hsplit, List.map_append, List.map_append, List.pairwise_append,
      List.pairwise_append] at hsorted
    obtain ⟨⟨-, -, hinit⟩, -, hrest⟩ := hsorted
    have hck : c < key last := by
      have hlast : last ∈ after key c rows := by rw [← hsplit]; simp
      exact (mem_after.1 hlast).2
    have hle : ∀ r ∈ init ++ [last], key r ≤ key last := by
      intro r hr
      rcases List.mem_append.1 hr with hr | hr
      · exact (hinit _ (List.mem_map_of_mem hr) _ (by simp)).le
      · rw [List.mem_singleton.1 hr]
    have hgt : ∀ r ∈ rest, key last < key r := by
      intro r hr
      exact hrest _ (by simp) _ (List.mem_map_of_mem hr)
    refine ⟨key last, by rw [hpage]; simp, ?_, by rw [hpage]; exact hle, hck, by rw [hpage]; simp⟩
    rw [hpage, after_eq_of_split hd hsplit.symm hck hle hgt]
    exact hsplit.symm
  · left
    have hall : (after key c rows).take (limit + 1) = after key c rows :=
      List.take_of_length_le (by omega)
    have hpage : page key limit c rows = { items := after key c rows, next := none } := by
      show (if _ then _ else _) = _
      rw [hall, if_neg hmore]
    rw [hpage]
    exact ⟨rfl, rfl⟩

theorem mem_of_mem_page (hl : 0 < limit) (hd : (rows.map key).Nodup) {r : α}
    (h : r ∈ (page key limit c rows).items) : r ∈ rows ∧ c < key r := by
  rcases page_cases hl hd (c := c) with ⟨-, hitems⟩ | ⟨k, -, hafter, -⟩
  · exact mem_after.1 (hitems ▸ h)
  · exact mem_after.1 (hafter ▸ List.mem_append_left _ h)

theorem page_sorted (hl : 0 < limit) (hd : (rows.map key).Nodup) :
    ((page key limit c rows).items.map key).Pairwise (· < ·) := by
  have hsorted := after_sorted (c := c) hd
  rcases page_cases hl hd (c := c) with ⟨-, hitems⟩ | ⟨k, -, hafter, -⟩
  · rwa [hitems]
  · rw [hafter, List.map_append, List.pairwise_append] at hsorted
    exact hsorted.1

/-- The cursor of the next page is the key of a row. -/
theorem mem_of_next {k : κ} (h : (page key limit c rows).next = some k) : ∃ r ∈ rows, key r = k := by
  unfold page at h
  dsimp only at h
  split at h
  · obtain ⟨r, hr, rfl⟩ := Option.map_eq_some_iff.1 h
    have hin := List.mem_of_mem_take (List.mem_of_mem_take (List.mem_of_getLast? hr))
    exact ⟨r, (mem_after.1 hin).1, rfl⟩
  · simp at h

/-! ## Walks -/

/-- The rows a walk shows come after its cursor, each from one of the tables. -/
theorem mem_of_mem_walk (hl : 0 < limit) : ∀ (tables : List (List α)) (c : κ),
    (∀ rows ∈ tables, (rows.map key).Nodup) → ∀ r ∈ (walk key limit c tables).1.flatten,
      c < key r ∧ ∃ rows ∈ tables, r ∈ rows := by
  intro tables
  induction tables with
  | nil => intro c _ r hr; simp [walk] at hr
  | cons rows tables ih =>
    intro c hd r hr
    obtain ⟨hrows, hrest⟩ := List.forall_mem_cons.1 hd
    have hhere : r ∈ (page key limit c rows).items →
        c < key r ∧ ∃ rows' ∈ rows :: tables, r ∈ rows' := by
      intro hmem
      obtain ⟨hin, hlt⟩ := mem_of_mem_page hl hrows hmem
      exact ⟨hlt, rows, List.mem_cons_self, hin⟩
    rcases page_cases hl hrows (c := c) with ⟨hnext, -⟩ | ⟨k, hnext, -, -, hck, -⟩
    · simp only [walk, hnext, List.flatten_cons, List.flatten_nil, List.append_nil] at hr
      exact hhere hr
    · simp only [walk, hnext, List.flatten_cons] at hr
      rcases List.mem_append.1 hr with hr | hr
      · exact hhere hr
      · obtain ⟨hlt, rows', hmem, hin⟩ := ih k hrest r hr
        exact ⟨hck.trans hlt, rows', List.mem_cons_of_mem _ hmem, hin⟩

/-- **A walk shows its rows in key order, none twice.** -/
theorem walk_sorted (hl : 0 < limit) : ∀ (tables : List (List α)) (c : κ),
    (∀ rows ∈ tables, (rows.map key).Nodup) →
      ((walk key limit c tables).1.flatten.map key).Pairwise (· < ·) := by
  intro tables
  induction tables with
  | nil => intro c _; simp [walk]
  | cons rows tables ih =>
    intro c hd
    obtain ⟨hrows, hrest⟩ := List.forall_mem_cons.1 hd
    have hpage := page_sorted (c := c) hl hrows
    rcases page_cases hl hrows (c := c) with ⟨hnext, -⟩ | ⟨k, hnext, -, hle, -, -⟩
    · simpa [walk, hnext] using hpage
    · simp only [walk, hnext, List.flatten_cons, List.map_append]
      refine List.pairwise_append.2 ⟨hpage, ih k hrest, fun a ha b hb => ?_⟩
      -- the next pages start after the last key of this one
      obtain ⟨r, hr, rfl⟩ := List.mem_map.1 ha
      obtain ⟨r', hr', rfl⟩ := List.mem_map.1 hb
      exact (hle r hr).trans_lt (mem_of_mem_walk hl tables k hrest r' hr').1

/-- **A walk that ends has shown every key after its cursor that all tables hold.** -/
theorem walk_complete (hl : 0 < limit) : ∀ (tables : List (List α)) (c x : κ),
    (∀ rows ∈ tables, (rows.map key).Nodup ∧ x ∈ rows.map key) → c < x →
      (walk key limit c tables).2 = true → x ∈ (walk key limit c tables).1.flatten.map key := by
  intro tables
  induction tables with
  | nil => intro c x _ _ hend; simp [walk] at hend
  | cons rows tables ih =>
    intro c x hd hcx hend
    obtain ⟨⟨hrows, hx⟩, hrest⟩ := List.forall_mem_cons.1 hd
    obtain ⟨r, hr, rfl⟩ := List.mem_map.1 hx
    have hafter : r ∈ after key c rows := mem_after.2 ⟨hr, hcx⟩
    rcases page_cases hl hrows (c := c) with ⟨hnext, hitems⟩ | ⟨k, hnext, hsplit, -, -, -⟩
    · simp only [walk, hnext, List.flatten_cons, List.flatten_nil, List.append_nil, hitems]
      exact List.mem_map_of_mem hafter
    · simp only [walk, hnext] at hend
      simp only [walk, hnext, List.flatten_cons, List.map_append]
      rw [hsplit] at hafter
      by_cases hk : k < key r
      · exact List.mem_append_right _ (ih k _ hrest hk hend)
      · rcases List.mem_append.1 hafter with hin | hin
        · exact List.mem_append_left _ (List.mem_map_of_mem hin)
        · exact absurd (mem_after.1 hin).2 hk

/-- A walk that has not ended has shown a row for each request. -/
theorem walk_unended (hl : 0 < limit) : ∀ (tables : List (List α)) (c : κ),
    (∀ rows ∈ tables, (rows.map key).Nodup) → (walk key limit c tables).2 = false →
      tables.length ≤ (walk key limit c tables).1.flatten.length := by
  intro tables
  induction tables with
  | nil => intro c _ _; simp
  | cons rows tables ih =>
    intro c hd hend
    obtain ⟨hrows, hrest⟩ := List.forall_mem_cons.1 hd
    rcases page_cases hl hrows (c := c) with ⟨hnext, -⟩ | ⟨k, hnext, -, -, -, hpos⟩
    · simp [walk, hnext] at hend
    · simp only [walk, hnext] at hend
      simp only [walk, hnext, List.flatten_cons, List.length_append, List.length_cons]
      have hlen := ih k hrest hend
      omega

/-- **A walk through a table that does not change** shows its rows from the cursor on, and
all of them when it ends. -/
theorem walk_static (hl : 0 < limit) (hd : (rows.map key).Nodup) : ∀ (n : ℕ) (c : κ),
    ∃ rest, after key c rows = (walk key limit c (List.replicate n rows)).1.flatten ++ rest ∧
      ((walk key limit c (List.replicate n rows)).2 = true → rest = []) := by
  intro n
  induction n with
  | zero => intro c; exact ⟨after key c rows, rfl, fun h => by simp [walk] at h⟩
  | succ n ih =>
    intro c
    rcases page_cases hl hd (c := c) with ⟨hnext, hitems⟩ | ⟨k, hnext, hsplit, -, -, -⟩
    · refine ⟨[], ?_, fun _ => rfl⟩
      simp [List.replicate_succ, walk, hnext, hitems]
    · obtain ⟨rest, hrest, hend⟩ := ih k
      refine ⟨rest, ?_, ?_⟩
      · simp only [List.replicate_succ, walk, hnext, List.flatten_cons, List.append_assoc]
        rw [hsplit, hrest]
      · simpa only [List.replicate_succ, walk, hnext] using hend

/-- Rows at or before the cursor do not matter. -/
theorem after_congr {rows' : List α} (h : rows'.filter (fun r => c < key r) =
    rows.filter fun r => c < key r) : after key c rows' = after key c rows := by
  rw [after, after, h]

/-- A walk does not see what is added at or before its cursor. -/
theorem walk_congr (hl : 0 < limit) (hd : (rows.map key).Nodup) : ∀ (tables : List (List α)) (c : κ),
    (∀ rows' ∈ tables, rows'.filter (fun r => c < key r) = rows.filter fun r => c < key r) →
      walk key limit c tables = walk key limit c (List.replicate tables.length rows) := by
  intro tables
  induction tables with
  | nil => intro c _; rfl
  | cons rows' tables ih =>
    intro c h
    obtain ⟨hrows, hrest⟩ := List.forall_mem_cons.1 h
    have hpage : page key limit c rows' = page key limit c rows := by
      rw [page, page, after_congr hrows]
    rcases page_cases hl hd (c := c) with ⟨hnext, -⟩ | ⟨k, hnext, -, -, hck, -⟩
    · simp [List.replicate_succ, walk, hpage, hnext]
    · have hlater : ∀ rows' ∈ tables,
          rows'.filter (fun r => k < key r) = rows.filter fun r => k < key r := by
        intro rows' hmem
        -- the rows after the later cursor are among those after the earlier one
        have hsub (l : List α) : l.filter (fun r => k < key r) =
            (l.filter fun r => c < key r).filter fun r => k < key r := by
          rw [List.filter_filter]
          refine List.filter_congr fun r _ => ?_
          rw [← Bool.decide_and]
          exact decide_eq_decide.2 ⟨fun h => ⟨h, hck.trans h⟩, And.left⟩
        rw [hsub rows', hrest rows' hmem, ← hsub rows]
      simp only [List.length_cons, List.replicate_succ, walk, hpage, hnext, ih k hlater]

/-- A walk through a table that does not change ends. -/
theorem walk_static_ends (hl : 0 < limit) (hd : (rows.map key).Nodup) {n : ℕ}
    (hn : (after key c rows).length < n) : (walk key limit c (List.replicate n rows)).2 = true := by
  by_contra hend
  obtain ⟨rest, hrest, -⟩ := walk_static hl hd n c
  have hlen := walk_unended hl (List.replicate n rows) c
    (fun rows' h => (List.mem_replicate.1 h).2 ▸ hd) (by simpa using hend)
  rw [hrest, List.length_append] at hn
  rw [List.length_replicate] at hlen
  omega

end Keyset
