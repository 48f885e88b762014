import Mathlib.Tactic

/-!
# Reading records at a position

A `Cursor` reads data from a position on and moves the position. What it makes of data that end too
early is its own affair.

* `Reads.bind`, `Reads.mapM_exists`: readers one after the other.
* `recordsAfter_cons`: a record that is there is read.
* `records_cut_iff`: **cutting the data does no harm** exactly if no record is cut after its guard.
-/

abbrev Cursor (β : Type) := ReaderT (List β) (StateM ℕ)

namespace Cursor

variable {β α γ σ ρ : Type}

/-- The value that is read at `pos`, and the position after it. -/
def readAt (m : Cursor β α) (data : List β) (pos : ℕ) : α × ℕ := (m.run data).run pos

def skip (n : ℕ) : Cursor β Unit := modify (· + n)

@[simp] theorem readAt_pure (a : α) (data : List β) (pos : ℕ) :
    (pure a : Cursor β α).readAt data pos = (a, pos) := rfl

@[simp] theorem readAt_bind (m : Cursor β α) (f : α → Cursor β γ) (data : List β) (pos : ℕ) :
    (m >>= f).readAt data pos = (f (m.readAt data pos).1).readAt data (m.readAt data pos).2 := rfl

@[simp] theorem readAt_skip (n : ℕ) (data : List β) (pos : ℕ) :
    (skip n : Cursor β Unit).readAt data pos = ((), pos + n) := rfl

/-! ## One reader after the other -/

/-- Wherever these bytes stand, the reader reads `a` from them and nothing else. -/
def Reads (m : Cursor β α) (bytes : List β) (a : α) : Prop :=
  ∀ before after, m.readAt (before ++ bytes ++ after) before.length = (a, before.length + bytes.length)

theorem Reads.pure (a : α) : Reads (Pure.pure a : Cursor β α) [] a := fun _ _ => rfl

theorem Reads.bind {m : Cursor β α} {f : α → Cursor β γ} {bytes bytes' : List β} {a : α} {c : γ}
    (hm : Reads m bytes a) (hf : Reads (f a) bytes' c) : Reads (m >>= f) (bytes ++ bytes') c := by
  intro before after
  have hfirst := hm before (bytes' ++ after)
  have hsecond := hf (before ++ bytes) after
  rw [List.length_append] at hsecond
  have hdata : before ++ (bytes ++ bytes') ++ after = before ++ bytes ++ (bytes' ++ after) := by simp
  have hdata' : before ++ bytes ++ (bytes' ++ after) = before ++ bytes ++ bytes' ++ after := by simp
  rw [readAt_bind, hdata, hfirst, hdata', hsecond, List.length_append, Nat.add_assoc]

theorem Reads.bind_exists {m : Cursor β α} {f : α → Cursor β γ} {bytes bytes' : List β} {a : α}
    (hm : Reads m bytes a) (hf : ∃ c, Reads (f a) bytes' c) : ∃ c, Reads (m >>= f) (bytes ++ bytes') c := by
  obtain ⟨c, hc⟩ := hf
  exact ⟨c, hm.bind hc⟩

/-- The second reader may depend on what the first one reads. -/
theorem exists_bind {m : Cursor β α} {f : α → Cursor β γ} {bytes bytes' : List β}
    (hm : ∃ a, Reads m bytes a) (hf : ∀ a, ∃ c, Reads (f a) bytes' c) :
    ∃ c, Reads (m >>= f) (bytes ++ bytes') c := by
  obtain ⟨a, ha⟩ := hm
  exact ha.bind_exists (hf a)

/-- The last step of a reader, which moves nothing. -/
theorem Reads.bind_pure {m : Cursor β α} {f : α → γ} {bytes : List β} {a : α} (hm : Reads m bytes a) :
    Reads (m >>= fun a => Pure.pure (f a)) bytes (f a) := by
  have h := Reads.bind (f := fun a => Pure.pure (f a)) hm (Reads.pure (f a))
  rwa [List.append_nil] at h

theorem Reads.skip {n : ℕ} {bytes : List β} (h : bytes.length = n) : Reads (skip n) bytes () := by
  intro before after
  rw [readAt_skip, h]

/-- The same reader several times, over as many pieces. -/
theorem Reads.mapM_exists {ι κ : Type} {m : Cursor β α} {bytes : ι → List β}
    (h : ∀ i, ∃ a, Reads m (bytes i) a) : ∀ (pieces : List ι) (times : List κ),
      times.length = pieces.length → ∃ as, Reads (times.mapM fun _ => m) (pieces.flatMap bytes) as := by
  intro pieces
  induction pieces with
  | nil =>
    intro times htimes
    rw [List.eq_nil_of_length_eq_zero htimes]
    exact ⟨[], Reads.pure []⟩
  | cons i pieces ih =>
    intro times htimes
    obtain ⟨t, times, rfl⟩ := List.exists_cons_of_length_eq_add_one htimes
    obtain ⟨as, has⟩ := ih times (by simpa using htimes)
    rw [List.mapM_cons, List.flatMap_cons]
    exact exists_bind (h i) fun a => ⟨a :: as, has.bind_pure⟩

/-! ## Records -/

/-- A loop that reads records, as long as `guard` bytes are left for the next one and it can be read. -/
def records (guard : ℕ) (read : σ → Cursor β (Option (α × σ))) : ℕ → σ → Cursor β (List α)
  | 0, _ => pure []
  | n + 1, s => do
    if (← MonadReader.read).length < (← get) + guard then return []
    match ← read s with
    | none => return []
    | some (a, s) => return a :: (← records guard read n s)

section Records

variable {guard : ℕ} {read : σ → Cursor β (Option (α × σ))} {bytes : ρ → List β}

theorem records_succ (n : ℕ) (s : σ) (data : List β) (pos : ℕ) :
    ((records guard read (n + 1) s).readAt data pos).1 =
      if data.length < pos + guard then []
      else match ((read s).readAt data pos).1 with
        | none => []
        | some (a, s') => a :: ((records guard read n s').readAt data ((read s).readAt data pos).2).1 := by
  rw [records]
  show ((if data.length < pos + guard then _ else _ : Cursor β (List α)).readAt data pos).1 = _
  split_ifs with hshort
  · rfl
  · rw [readAt_bind]
    cases ((read s).readAt data pos).1 with
    | none => rfl
    | some next => rfl

/-- What the reader makes of the bytes of a record: all of them are read, the guard lets them pass, and a
record that is cut after the guard is read as well. -/
structure Format (guard : ℕ) (read : σ → Cursor β (Option (α × σ))) (bytes : ρ → List β) : Prop where
  whole : ∀ r s, ∃ v, Reads (read s) (bytes r) v
  guarded : ∀ r, guard ≤ (bytes r).length
  cut : ∀ r s n before, guard ≤ n → ((read s).readAt (before ++ (bytes r).take n) before.length).1 ≠ none

/-- The records that end within the first `n` bytes are those of which the guard is. -/
def Clean (guard : ℕ) (bytes : ρ → List β) (rs : List ρ) (n : ℕ) : Prop :=
  ∀ k < rs.length, ((rs.take k).flatMap bytes).length + guard ≤ n →
    ((rs.take (k + 1)).flatMap bytes).length ≤ n

theorem clean_cons (r : ρ) (rs : List ρ) (n : ℕ) (h : guard ≤ n) :
    Clean guard bytes (r :: rs) n ↔
      (bytes r).length ≤ n ∧ Clean guard bytes rs (n - (bytes r).length) := by
  constructor
  · intro hclean
    have hfirst : (bytes r).length ≤ n := by
      have := hclean 0 (by simp) (by simpa using h)
      simpa using this
    refine ⟨hfirst, fun k hk hle => ?_⟩
    have hnext := hclean (k + 1) (by simpa using hk)
    simp only [List.take_succ_cons, List.flatMap_cons, List.length_append] at hnext
    omega
  · rintro ⟨hfirst, hrest⟩ k hk hle
    cases k with
    | zero => simpa using hfirst
    | succ k =>
      have hnext := hrest k (by simpa using hk)
      simp only [List.take_succ_cons, List.flatMap_cons, List.length_append] at hle ⊢
      omega

/-- What is read from the data after `before`. -/
def recordsAfter (guard : ℕ) (read : σ → Cursor β (Option (α × σ))) (count : ℕ) (s : σ)
    (before data : List β) : List α :=
  ((records guard read count s).readAt (before ++ data) before.length).1

/-- **A record that is there is read**, and the loop goes on after it. -/
theorem recordsAfter_cons (h : Format guard read bytes) (r : ρ) (s : σ) :
    ∃ a s', ∀ count before rest, recordsAfter guard read (count + 1) s before (bytes r ++ rest) =
      a :: recordsAfter guard read count s' (before ++ bytes r) rest := by
  obtain ⟨v, hread⟩ := h.whole r s
  have hsome : v ≠ none := by
    have hcut := h.cut r s (bytes r).length [] (h.guarded r)
    have hwhole := hread [] []
    rw [List.nil_append, List.append_nil] at hwhole
    rwa [List.nil_append, List.take_length, hwhole] at hcut
  obtain ⟨⟨a, s'⟩, rfl⟩ := Option.ne_none_iff_exists'.1 hsome
  refine ⟨a, s', fun count before rest => ?_⟩
  have hguard := h.guarded r
  have hlong : ¬ (before ++ (bytes r ++ rest)).length < before.length + guard := by
    simp only [List.length_append]
    omega
  have hstep := hread before rest
  rw [List.append_assoc] at hstep
  unfold recordsAfter
  rw [records_succ, if_neg hlong, hstep, List.append_assoc, List.length_append]

/-- Nothing is read when less than the guard is left. -/
theorem recordsAfter_short (count : ℕ) (s : σ) (before : List β) {data : List β}
    (hshort : data.length < guard) : recordsAfter guard read count s before data = [] := by
  unfold recordsAfter
  cases count with
  | zero => rfl
  | succ count =>
    rw [records_succ, if_pos]
    rw [List.length_append]
    omega

/-- **Cutting the data does no harm**, neither a record that was not there nor one that is not all
there, exactly if no record is cut after its guard. -/
theorem records_cut_iff (h : Format guard read bytes) (rs : List ρ) : ∀ (s : σ) (before : List β) (n : ℕ),
    (recordsAfter guard read rs.length s before ((rs.flatMap bytes).take n) <+:
        recordsAfter guard read rs.length s before (rs.flatMap bytes) ∧
      ∀ i < (recordsAfter guard read rs.length s before ((rs.flatMap bytes).take n)).length,
        ((rs.take (i + 1)).flatMap bytes).length ≤ n) ↔ Clean guard bytes rs n := by
  induction rs with
  | nil =>
    intro s before n
    exact iff_of_true ⟨List.prefix_rfl, fun i hi => absurd hi (Nat.not_lt_zero i)⟩
      fun k hk => absurd hk (Nat.not_lt_zero k)
  | cons r rs ih =>
    intro s before n
    have hguard := h.guarded r
    by_cases hshort : n < guard
    · have htake : (((r :: rs).flatMap bytes).take n).length < guard := by
        rw [List.length_take]
        omega
      rw [recordsAfter_short _ _ _ htake]
      refine iff_of_true ⟨List.nil_prefix, fun i hi => absurd hi (Nat.not_lt_zero i)⟩ fun k _ hle => ?_
      omega
    · rw [clean_cons r rs n (by omega)]
      by_cases hcut : n < (bytes r).length
      · -- what is left of the record gives a value
        refine iff_of_false (fun hgood => ?_) (by omega)
        have htake : ((r :: rs).flatMap bytes).take n = (bytes r).take n := by
          rw [List.flatMap_cons, List.take_append_of_le_length (by omega)]
        have hlong : ¬ (before ++ (bytes r).take n).length < before.length + guard := by
          rw [List.length_append, List.length_take]
          omega
        have hpos : 0 < (recordsAfter guard read (r :: rs).length s before
            (((r :: rs).flatMap bytes).take n)).length := by
          rw [htake]
          unfold recordsAfter
          rw [List.length_cons, records_succ, if_neg hlong]
          obtain ⟨⟨a, s'⟩, hsome⟩ := Option.ne_none_iff_exists'.1 (h.cut r s n before (by omega))
          rw [hsome]
          exact Nat.succ_pos _
        have hend := hgood.2 0 hpos
        simp only [List.take_succ_cons, List.take_zero, List.flatMap_cons, List.flatMap_nil,
          List.append_nil] at hend
        omega
      · obtain ⟨a, s', hcons⟩ := recordsAfter_cons h r s
        have htake : ((r :: rs).flatMap bytes).take n =
            bytes r ++ (rs.flatMap bytes).take (n - (bytes r).length) := by
          rw [List.flatMap_cons, List.take_append, List.take_of_length_le (by omega)]
        rw [htake, List.length_cons, List.flatMap_cons, hcons, hcons, List.prefix_cons_inj,
          ← ih s' (before ++ bytes r) (n - (bytes r).length)]
        have hfirst : (bytes r).length ≤ n := by omega
        constructor
        · rintro ⟨hpre, hends⟩
          refine ⟨hfirst, hpre, fun i hi => ?_⟩
          have hend := hends (i + 1) (by simpa using hi)
          rw [List.take_succ_cons, List.flatMap_cons, List.length_append] at hend
          omega
        · rintro ⟨-, hpre, hends⟩
          refine ⟨hpre, fun i hi => ?_⟩
          rw [List.take_succ_cons, List.flatMap_cons, List.length_append]
          cases i with
          | zero => simpa using hfirst
          | succ i =>
            have hend := hends i (by simpa using hi)
            omega

end Records

end Cursor
