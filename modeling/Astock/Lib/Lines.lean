import Astock.Lib.Text
import Mathlib.Data.List.DropRight

/-!
# Lines and margins

A text over any alphabet is cut behind its line breaks (`split`) and stripped of the white
space around it (`trim`). Everything about `split` follows from one equation, `split_append`: a
text can be cut behind any line break first. Both commute with a change of alphabet
(`map_split`, `map_trim`), so that the characters of a text can carry where they come from.

* `length_split`: a text that ends with a line break has as many lines as line breaks.
* `split_line`: a text with one line break, at its end, is one line.
-/

namespace Lines

variable {α β : Type*} {brk blank : α → Bool}

/-- `split_inclusive`: the lines of a text, each with the break that ends it. -/
def split (brk : α → Bool) : List α → List (List α)
  | [] => []
  | a :: l =>
    if brk a then [a] :: split brk l
    else match split brk l with
      | [] => [[a]]
      | s :: ss => (a :: s) :: ss

/-- A text without the white space at its ends. -/
def trim (blank : α → Bool) (l : List α) : List α := (l.dropWhile blank).rdropWhile blank

@[simp] theorem split_nil : split brk [] = [] := rfl

theorem split_cons_break {a : α} (h : brk a) (l : List α) :
    split brk (a :: l) = [a] :: split brk l := by
  rw [split, if_pos h]

theorem split_ne_nil (a : α) (l : List α) : split brk (a :: l) ≠ [] := by
  unfold split
  split
  · exact List.cons_ne_nil _ _
  · split <;> exact List.cons_ne_nil _ _

@[simp] theorem flatten_split : ∀ l : List α, (split brk l).flatten = l
  | [] => rfl
  | a :: l => by
    have ih := flatten_split l
    unfold split
    split
    · rw [List.flatten_cons, ih, List.singleton_append]
    · split
      next hnil => rw [← ih, hnil]; rfl
      next s ss hcons => rw [List.flatten_cons, List.cons_append, ← List.flatten_cons, ← hcons, ih]

/-- No line is empty. -/
theorem ne_nil_of_mem_split : ∀ {l : List α} {s : List α}, s ∈ split brk l → s ≠ []
  | a :: l, s, h => by
    unfold split at h
    split at h
    · rcases List.mem_cons.1 h with rfl | h
      · exact List.cons_ne_nil _ _
      · exact ne_nil_of_mem_split h
    · split at h
      next =>
        rw [List.mem_singleton.1 h]
        exact List.cons_ne_nil _ _
      next s' ss hcons =>
        rcases List.mem_cons.1 h with rfl | h
        · exact List.cons_ne_nil _ _
        · exact ne_nil_of_mem_split (hcons ▸ List.mem_cons_of_mem _ h)

theorem mem_of_mem_split {l s : List α} {x : α} (hs : s ∈ split brk l) (hx : x ∈ s) : x ∈ l := by
  rw [← @flatten_split α brk l]
  exact List.mem_flatten_of_mem hs hx

/-- **A text can be cut behind any line break first.** -/
theorem split_append {c : α} (hc : brk c) : ∀ x y : List α,
    split brk (x ++ c :: y) = split brk (x ++ [c]) ++ split brk y
  | [], y => by
    rw [List.nil_append, List.nil_append, split_cons_break hc, split_cons_break hc]
    rfl
  | a :: x, y => by
    have ih := split_append hc x y
    obtain ⟨s, ss, hcut⟩ : ∃ s ss, split brk (x ++ [c]) = s :: ss := by
      obtain ⟨b, l, hb⟩ : ∃ b l, x ++ [c] = b :: l := by
        cases x with
        | nil => exact ⟨c, [], rfl⟩
        | cons b x => exact ⟨b, x ++ [c], rfl⟩
      rw [hb]
      exact List.exists_cons_of_ne_nil (split_ne_nil b l)
    rw [hcut, List.cons_append] at ih
    rw [List.cons_append, List.cons_append]
    by_cases ha : brk a
    · rw [split_cons_break ha, split_cons_break ha, ih, hcut]
      rfl
    · rw [split, split, if_neg ha, if_neg ha, ih, hcut]
      rfl

/-- A text in front of which every line is ended can be read on its own. -/
theorem split_append_of_ends {x : List α} (h : x = [] ∨ ∃ t c, brk c ∧ x = t ++ [c]) (y : List α) :
    split brk (x ++ y) = split brk x ++ split brk y := by
  rcases h with rfl | ⟨t, c, hc, rfl⟩
  · rfl
  · rw [List.append_assoc, List.singleton_append, split_append hc]

/-- What has no line break is one line. -/
theorem split_open : ∀ {t : List α}, t ≠ [] → (∀ a ∈ t, ¬ brk a) → split brk t = [t]
  | [a], _, h => by rw [split, if_neg (h a List.mem_cons_self)]; rfl
  | a :: b :: t, _, h => by
    have ih := split_open (List.cons_ne_nil b t) fun x hx => h x (List.mem_cons_of_mem _ hx)
    rw [split, if_neg (h a List.mem_cons_self), ih]

/-- What has one line break, at its end, is one line. -/
theorem split_line {t : List α} {c : α} (hc : brk c) (h : ∀ a ∈ t, ¬ brk a) :
    split brk (t ++ [c]) = [t ++ [c]] := by
  induction t with
  | nil => exact split_cons_break hc []
  | cons a t ih =>
    rw [List.cons_append, split, if_neg (h a List.mem_cons_self),
      ih fun x hx => h x (List.mem_cons_of_mem _ hx)]

/-- **A text that ends with a line break has as many lines as line breaks.** -/
theorem length_split {t : List α} {c : α} (hc : brk c) :
    (split brk (t ++ [c])).length = t.countP brk + 1 := by
  induction t with
  | nil => rw [List.nil_append, split_cons_break hc]; rfl
  | cons a t ih =>
    by_cases ha : brk a
    · rw [List.cons_append, split_cons_break ha, List.length_cons, ih, List.countP_cons_of_pos ha]
    · rw [List.cons_append, split, if_neg ha, List.countP_cons_of_neg ha]
      obtain ⟨s, ss, hcut⟩ : ∃ s ss, split brk (t ++ [c]) = s :: ss :=
        List.exists_cons_of_ne_nil fun hnil => by simp [hnil] at ih
      rw [hcut] at ih ⊢
      exact ih

/-- There are at least as many lines as line breaks. -/
theorem countP_le_length_split : ∀ l : List α, l.countP brk ≤ (split brk l).length
  | [] => le_rfl
  | a :: l => by
    have ih := countP_le_length_split l
    by_cases ha : brk a
    · rw [split_cons_break ha, List.length_cons, List.countP_cons_of_pos ha]
      exact Nat.succ_le_succ ih
    · rw [split, if_neg ha, List.countP_cons_of_neg ha]
      split
      next hnil =>
        rw [hnil] at ih
        exact ih.trans (Nat.zero_le _)
      next s ss hcons =>
        rw [hcons] at ih
        exact ih

theorem length_split_le (l : List α) : (split brk l).length ≤ l.length := by
  calc (split brk l).length
      = ((split brk l).map fun _ => 1).sum := by simp
    _ ≤ ((split brk l).map List.length).sum :=
        List.sum_le_sum fun s hs => List.length_pos_iff.2 (ne_nil_of_mem_split hs)
    _ = l.length := by rw [← List.length_flatten, flatten_split]

/-- Lines are cut alike in any alphabet. -/
theorem map_split (f : β → α) : ∀ l : List β,
    split brk (l.map f) = (split (brk ∘ f) l).map (List.map f)
  | [] => rfl
  | b :: l => by
    have ih := map_split f l
    rw [List.map_cons, split, split, ih]
    by_cases hb : brk (f b)
    · rw [if_pos hb, if_pos (by exact hb)]
      rfl
    · rw [if_neg hb, if_neg (by exact hb)]
      cases split (brk ∘ f) l with
      | nil => rfl
      | cons s ss => rfl

theorem map_rdropWhile (f : β → α) (l : List β) :
    (l.map f).rdropWhile blank = (l.rdropWhile (blank ∘ f)).map f := by
  rw [List.rdropWhile, List.rdropWhile, ← List.map_reverse, List.dropWhile_map, List.map_reverse]

/-- White space is stripped alike in any alphabet. -/
theorem map_trim (f : β → α) (l : List β) :
    trim blank (l.map f) = (trim (blank ∘ f) l).map f := by
  rw [trim, List.dropWhile_map, map_rdropWhile, trim]

theorem rdropWhile_append_of_blank (l : List α) {r : List α} (h : ∀ a ∈ r, blank a) :
    (l ++ r).rdropWhile blank = l.rdropWhile blank := by
  rw [List.rdropWhile, List.rdropWhile, List.reverse_append,
    List.dropWhile_append_of_pos fun a ha => h a (List.mem_reverse.1 ha)]

theorem rdropWhile_append (l : List α) {r : List α} (h : ∃ a ∈ r, ¬ blank a) :
    (l ++ r).rdropWhile blank = l ++ r.rdropWhile blank := by
  obtain ⟨a, ha, hmark⟩ := h
  have hne : ¬ (r.reverse.dropWhile blank).isEmpty := by
    rw [List.isEmpty_iff, List.dropWhile_eq_nil_iff]
    exact fun hall => hmark (hall a (List.mem_reverse.2 ha))
  rw [List.rdropWhile, List.rdropWhile, List.reverse_append, List.dropWhile_append, if_neg hne,
    List.reverse_append, List.reverse_reverse]

theorem trim_eq_self {l : List α} (hhead : ∀ a ∈ l.head?, ¬ blank a)
    (hlast : ∀ a ∈ l.getLast?, ¬ blank a) : trim blank l = l := by
  have hdrop : l.dropWhile blank = l := by
    cases l with
    | nil => rfl
    | cons a l => exact List.dropWhile_cons_of_neg (hhead a rfl)
  rw [trim, hdrop, List.rdropWhile_eq_self_iff]
  exact fun hne => hlast _ (List.getLast?_eq_some_getLast hne)

end Lines

namespace Text

/-- A line without the break that ends it, `"\n"` or `"\r\n"`. -/
def lineText (line : List Char) : List Char :=
  match line.reverse with
  | '\n' :: '\r' :: rest => rest.reverse
  | '\n' :: rest => rest.reverse
  | _ => line

/-- `str::lines`. -/
def lines (s : String) : List String :=
  (Lines.split (· == '\n') s.toList).map fun line => String.ofList (lineText line)

theorem toList_trim (s : String) : (trim s).toList = Lines.trim isWhiteSpace s.toList :=
  String.toList_ofList

/-- The break that ends a line is white space. -/
theorem rdropWhile_lineText (line : List Char) :
    (lineText line).rdropWhile isWhiteSpace = line.rdropWhile isWhiteSpace := by
  unfold lineText
  split
  next rest h =>
    have hline : line = rest.reverse ++ ['\r', '\n'] := by
      rw [← List.reverse_reverse line, h]
      simp
    rw [hline]
    exact (Lines.rdropWhile_append_of_blank _ (by decide)).symm
  next rest _ h =>
    have hline : line = rest.reverse ++ ['\n'] := by
      rw [← List.reverse_reverse line, h]
      simp
    rw [hline]
    exact (Lines.rdropWhile_append_of_blank _ (by decide)).symm
  next => rfl

theorem lineText_line {t : List Char} (h : t.getLast? ≠ some '\r') : lineText (t ++ ['\n']) = t := by
  unfold lineText
  rw [List.reverse_append]
  split
  next rest heq =>
    have hrev : t.reverse = '\r' :: rest := by simpa using heq
    exact absurd (by rw [← List.head?_reverse, hrev]; rfl) h
  next rest _ heq =>
    have hrev : t.reverse = rest := by simpa using heq
    rw [← hrev, List.reverse_reverse]
  next hother => exact absurd rfl (hother t.reverse)

theorem lineText_open {t : List Char} (h : '\n' ∉ t) : lineText t = t := by
  have hmem : ∀ rest, t.reverse = '\n' :: rest → False := by
    intro rest hrest
    exact h (List.mem_reverse.1 (hrest ▸ List.mem_cons_self))
  unfold lineText
  split
  next rest heq => exact (hmem _ heq).elim
  next rest _ heq => exact (hmem _ heq).elim
  next => rfl

end Text
