import Mathlib.Tactic

/-!
# Reading from a stream of chunks

A `Source` hands out its elements in chunks, none of them empty; a read that gets nothing
is at the end.

* `readExact_of_le`, `readExact_of_lt`: **how a source is cut into chunks does not matter** to
  what `readExact` reads from it.
* `ofLeBytes_leBytes`: numbers as little-endian bytes.
-/

namespace Stream

variable {α : Type}

structure Source (α : Type) where
  chunks : List (List α)
  nonempty : ∀ chunk ∈ chunks, chunk ≠ []

namespace Source

/-- All that is still to come. -/
def content (source : Source α) : List α := source.chunks.flatten

def empty : Source α where
  chunks := []
  nonempty := by simp

/-- A source that hands out one element at a time. -/
def trickle (l : List α) : Source α where
  chunks := l.map fun a => [a]
  nonempty := by simp

@[simp] theorem content_trickle (l : List α) : (trickle l).content = l := by
  induction l with
  | nil => rfl
  | cons a l ih =>
    show a :: (trickle l).content = a :: l
    rw [ih]

end Source

/-- `read_exact`: chunk after chunk until `n` elements are there, or `none` when the source ends
before. -/
def readChunks : ℕ → List (List α) → Option (List α) × List (List α)
  | 0, chunks => (some [], chunks)
  | _ + 1, [] => (none, [])
  | n + 1, chunk :: chunks =>
    if n + 1 < chunk.length then
      (some (chunk.take (n + 1)), chunk.drop (n + 1) :: chunks)
    else
      let read := readChunks (n + 1 - chunk.length) chunks
      (read.1.map (chunk ++ ·), read.2)
termination_by _ chunks => chunks.length

theorem readChunks_nonempty (n : ℕ) (chunks : List (List α)) (h : ∀ chunk ∈ chunks, chunk ≠ []) :
    ∀ chunk ∈ (readChunks n chunks).2, chunk ≠ [] := by
  induction n, chunks using readChunks.induct with
  | case1 chunks =>
    rw [readChunks]
    exact h
  | case2 n => simp [readChunks]
  | case3 n chunk chunks hlt =>
    intro c hc
    rw [readChunks, if_pos hlt] at hc
    rcases List.mem_cons.1 hc with rfl | hc
    · intro hnil
      have hlength := congrArg List.length hnil
      rw [List.length_drop, List.length_nil] at hlength
      omega
    · exact h c (List.mem_cons_of_mem _ hc)
  | case4 n chunk chunks hlt ih =>
    intro c hc
    rw [readChunks, if_neg hlt] at hc
    exact ih (fun c hc => h c (List.mem_cons_of_mem _ hc)) c hc

def readExact (n : ℕ) (source : Source α) : Option (List α) × Source α :=
  ((readChunks n source.chunks).1,
    { chunks := (readChunks n source.chunks).2
      nonempty := readChunks_nonempty n source.chunks source.nonempty })

theorem readChunks_of_le {n : ℕ} {chunks : List (List α)} (h : n ≤ chunks.flatten.length) :
    (readChunks n chunks).1 = some (chunks.flatten.take n) ∧
      (readChunks n chunks).2.flatten = chunks.flatten.drop n := by
  induction n, chunks using readChunks.induct with
  | case1 chunks => simp [readChunks]
  | case2 n => simp at h
  | case3 n chunk chunks hlt =>
    rw [readChunks, if_pos hlt, List.flatten_cons]
    refine ⟨?_, ?_⟩
    · rw [List.take_append_of_le_length (by omega)]
    · rw [List.drop_append_of_le_length (by omega)]
      rfl
  | case4 n chunk chunks hlt ih =>
    rw [List.flatten_cons, List.length_append] at h
    obtain ⟨hread, hrest⟩ := ih (by omega)
    rw [readChunks, if_neg hlt, List.flatten_cons]
    refine ⟨?_, ?_⟩
    · show (readChunks (n + 1 - chunk.length) chunks).1.map _ = _
      rw [hread, List.take_append, List.take_of_length_le (by omega : chunk.length ≤ n + 1)]
      rfl
    · show (readChunks (n + 1 - chunk.length) chunks).2.flatten = _
      rw [hrest, List.drop_append, List.drop_of_length_le (by omega : chunk.length ≤ n + 1)]
      rfl

theorem readChunks_of_lt {n : ℕ} {chunks : List (List α)} (h : chunks.flatten.length < n) :
    readChunks n chunks = (none, []) := by
  induction n, chunks using readChunks.induct with
  | case1 chunks => omega
  | case2 n => rw [readChunks]
  | case3 n chunk chunks hlt =>
    rw [List.flatten_cons, List.length_append] at h
    omega
  | case4 n chunk chunks hlt ih =>
    rw [List.flatten_cons, List.length_append] at h
    rw [readChunks, if_neg hlt, ih (by omega)]
    rfl

/-- **Enough elements**: the first `n` are read. -/
theorem readExact_of_le {n : ℕ} {source : Source α} (h : n ≤ source.content.length) :
    (readExact n source).1 = some (source.content.take n) ∧
      (readExact n source).2.content = source.content.drop n := readChunks_of_le h

/-- **Too few elements**: they are lost. -/
theorem readExact_of_lt {n : ℕ} {source : Source α} (h : source.content.length < n) :
    readExact n source = (none, .empty) := by
  have hread : readChunks n source.chunks = (none, []) := readChunks_of_lt h
  unfold readExact Source.empty
  simp only [hread]

/-- What is read next from `x` followed by `y`. -/
theorem readExact_append {x y : List α} {source : Source α} (h : source.content = x ++ y) :
    ∃ rest, readExact x.length source = (some x, rest) ∧ rest.content = y := by
  have hle : x.length ≤ source.content.length := by
    rw [h, List.length_append]
    omega
  obtain ⟨hread, hrest⟩ := readExact_of_le hle
  rw [h, List.take_left] at hread
  rw [h, List.drop_left] at hrest
  exact ⟨_, Prod.ext hread rfl, hrest⟩

/-! ## Little-endian bytes -/

def leBytes : ℕ → ℕ → List UInt8
  | 0, _ => []
  | w + 1, n => UInt8.ofNat n :: leBytes w (n / 256)

def ofLeBytes : List UInt8 → ℕ
  | [] => 0
  | b :: bs => b.toNat + 256 * ofLeBytes bs

@[simp] theorem length_leBytes (w n : ℕ) : (leBytes w n).length = w := by
  induction w generalizing n with
  | zero => rfl
  | succ w ih =>
    show (leBytes w (n / 256)).length + 1 = w + 1
    rw [ih]

/-- **Little-endian bytes** hold a number up to their width. -/
theorem ofLeBytes_leBytes (w n : ℕ) (h : n < 256 ^ w) : ofLeBytes (leBytes w n) = n := by
  induction w generalizing n with
  | zero =>
    rw [pow_zero] at h
    show 0 = n
    omega
  | succ w ih =>
    have hdiv : n / 256 < 256 ^ w := by
      rw [pow_succ] at h
      omega
    show (UInt8.ofNat n).toNat + 256 * ofLeBytes (leBytes w (n / 256)) = n
    rw [ih _ hdiv, UInt8.toNat_ofNat']
    have hmod := Nat.mod_add_div n 256
    norm_num
    omega

end Stream
