import Mathlib.Data.List.Infix
import Mathlib.Tactic

/-!
# Marked spans

The loop that looks for an opening mark, then for the closing character behind it, and goes on
after that, cuts a text into the characters outside of all marks and the spans inside them. An
opening mark that is never closed is text.

* `spans_append`: text in which no mark opens is passed over.
* `spans_mark`: a span is read back from between its marks.
* `inl_mem_spans`: the opening marks that are text are those that are never closed.
-/

namespace Spans

variable {α : Type*} [DecidableEq α] {opening : List α} {closing : α}

/-- What is left to read of a text: outside of all spans (`none`), or in a span behind an opening
mark of which `n` characters are still to be passed, with the characters read so far. -/
def scan (opening : List α) (closing : α) : Option (ℕ × List α) → List α → List (α ⊕ List α)
  | none, [] => []
  | none, c :: cs =>
    if opening.isPrefixOf (c :: cs) then scan opening closing (some (opening.length - 1, [])) cs
    else .inl c :: scan opening closing none cs
  | some (_, inside), [] => (opening ++ inside.reverse).map .inl
  | some (n + 1, inside), _ :: cs => scan opening closing (some (n, inside)) cs
  | some (0, inside), c :: cs =>
    if c = closing then .inr inside.reverse :: scan opening closing none cs
    else scan opening closing (some (0, c :: inside)) cs

/-- A text as characters and spans. -/
def spans (opening : List α) (closing : α) (text : List α) : List (α ⊕ List α) :=
  scan opening closing none text

/-- The spans of a text. -/
def inside (opening : List α) (closing : α) (text : List α) : List (List α) :=
  (spans opening closing text).filterMap Sum.getRight?

omit [DecidableEq α] in
/-- No opening mark starts in a text, or runs out of it, when none lies inside it and what follows
does not go on as the mark does. -/
theorem not_prefix_append {t r : List α} (ht : ¬ opening <:+: t)
    (hr : ∀ c ∈ r.head?, c ∉ opening.tail) {s : List α} (hs : s <:+ t) (hne : s ≠ []) :
    ¬ opening <+: s ++ r := by
  rintro ⟨rest, hrest⟩
  rcases List.append_eq_append_iff.1 hrest with ⟨within, hin, -⟩ | ⟨more, hmark, hmore⟩
  · exact ht ((hin ▸ List.prefix_append opening within).isInfix.trans hs.isInfix)
  · cases more with
    | nil =>
      rw [List.append_nil] at hmark
      exact ht (hmark ▸ hs.isInfix)
    | cons c more =>
      refine hr c (hmore ▸ rfl) ?_
      rw [hmark, List.tail_append_of_ne_nil hne]
      exact List.mem_append_right _ List.mem_cons_self

/-- **Text in which no mark opens is passed over.** -/
theorem spans_append : ∀ {t r : List α}, ¬ opening <:+: t → (∀ c ∈ r.head?, c ∉ opening.tail) →
    spans opening closing (t ++ r) = t.map .inl ++ spans opening closing r
  | [], _, _, _ => rfl
  | c :: t, r, ht, hr => by
    have hpre : ¬ opening.isPrefixOf (c :: (t ++ r)) := by
      rw [List.isPrefixOf_iff_prefix]
      exact not_prefix_append ht hr (List.suffix_refl (c :: t)) (List.cons_ne_nil _ _)
    have ih := spans_append (t := t) (fun hin => ht (hin.trans (List.suffix_cons c t).isInfix)) hr
    rw [List.cons_append, spans, scan, if_neg hpre]
    exact congrArg (Sum.inl c :: ·) ih

theorem scan_body {body : List α} (h : closing ∉ body) (r done : List α) :
    scan opening closing (some (0, done)) (body ++ closing :: r) =
      .inr (done.reverse ++ body) :: spans opening closing r := by
  induction body generalizing done with
  | nil => rw [List.nil_append, scan, if_pos rfl, List.append_nil, spans]
  | cons c body ih =>
    have hc : c ≠ closing := fun heq => h (heq ▸ List.mem_cons_self)
    rw [List.cons_append, scan, if_neg hc, ih fun hmem => h (List.mem_cons_of_mem _ hmem)]
    simp

theorem scan_mark (mark rest done : List α) :
    scan opening closing (some (mark.length, done)) (mark ++ rest) =
      scan opening closing (some (0, done)) rest := by
  induction mark with
  | nil => rfl
  | cons c mark ih => rw [List.cons_append, List.length_cons, scan, ih]

/-- **A span is read back from between its marks.** -/
theorem spans_mark (hopen : opening ≠ []) {body : List α} (h : closing ∉ body) (r : List α) :
    spans opening closing (opening ++ (body ++ closing :: r)) =
      .inr body :: spans opening closing r := by
  obtain ⟨c, mark, rfl⟩ := List.exists_cons_of_ne_nil hopen
  have hpre : (c :: mark).isPrefixOf (c :: (mark ++ (body ++ closing :: r))) := by
    rw [List.isPrefixOf_iff_prefix]
    exact List.prefix_append (c :: mark) _
  rw [List.cons_append, spans, scan, if_pos hpre, List.length_cons, Nat.add_sub_cancel, scan_mark,
    scan_body h]
  rfl

theorem inside_append {t r : List α} (ht : ¬ opening <:+: t)
    (hr : ∀ c ∈ r.head?, c ∉ opening.tail) :
    inside opening closing (t ++ r) = inside opening closing r := by
  have hout : (t.map (Sum.inl : α → α ⊕ List α)).filterMap Sum.getRight? = [] := by
    rw [List.filterMap_map, List.filterMap_eq_nil_iff]
    exact fun _ _ => rfl
  rw [inside, spans_append ht hr, List.filterMap_append, hout, List.nil_append, inside]

theorem inside_mark (hopen : opening ≠ []) {body : List α} (h : closing ∉ body) (r : List α) :
    inside opening closing (opening ++ (body ++ closing :: r)) =
      body :: inside opening closing r := by
  rw [inside, spans_mark hopen h, List.filterMap_cons]
  rfl

theorem inside_plain {t : List α} (ht : ¬ opening <:+: t) : inside opening closing t = [] := by
  have h := @inside_append α _ opening closing t [] ht (by simp)
  rwa [List.append_nil] at h

/-! ## Marks that are never closed -/

/-- An opening character behind which no closing one comes. -/
def Unclosed (o closing : α) (text : List α) : Prop := ∃ a b, text = a ++ o :: b ∧ closing ∉ b

omit [DecidableEq α] in
theorem unclosed_cons {o c : α} {text : List α} :
    Unclosed o closing (c :: text) ↔ c = o ∧ closing ∉ text ∨ Unclosed o closing text := by
  constructor
  · rintro ⟨a, b, h, hb⟩
    cases a with
    | nil =>
      obtain ⟨hc, htext⟩ := List.cons.inj h
      exact .inl ⟨hc, htext ▸ hb⟩
    | cons d a => exact .inr ⟨a, b, (List.cons.inj h).2, hb⟩
  · rintro (⟨rfl, hb⟩ | ⟨a, b, rfl, hb⟩)
    · exact ⟨[], text, rfl, hb⟩
    · exact ⟨c :: a, b, rfl, hb⟩

omit [DecidableEq α] in
theorem not_unclosed_of_not_mem {o : α} {text : List α} (h : o ∉ text) : ¬ Unclosed o closing text := by
  rintro ⟨a, b, rfl, -⟩
  exact h (List.mem_append_right _ List.mem_cons_self)

/-- An opening character is left in a text, read from outside of all spans or from within one, when
it is never closed. -/
theorem inl_mem_scan {o : α} (ho : o ≠ closing) : ∀ text : List α,
    (.inl o ∈ scan [o] closing none text ↔ Unclosed o closing text) ∧
      ∀ inside, .inl o ∈ scan [o] closing (some (0, inside)) text ↔
        closing ∉ text ∨ Unclosed o closing text
  | [] => by
    refine ⟨⟨fun h => absurd h (List.not_mem_nil), fun ⟨a, b, h, _⟩ => ?_⟩, fun inside => ?_⟩
    · exact absurd h.symm (List.append_ne_nil_of_right_ne_nil a (List.cons_ne_nil o b))
    · rw [scan]
      exact iff_of_true List.mem_cons_self (.inl List.not_mem_nil)
  | c :: text => by
    obtain ⟨hout, hin⟩ := inl_mem_scan ho text
    constructor
    · rw [unclosed_cons, scan]
      by_cases hc : c = o
      · have hpre : [o].isPrefixOf (c :: text) := by simp [hc]
        rw [if_pos hpre, List.length_singleton, Nat.sub_self, hin, and_iff_right hc]
      · have hpre : ¬ [o].isPrefixOf (c :: text) := by simp [Ne.symm hc]
        rw [if_neg hpre, List.mem_cons, hout]
        exact or_congr_left (by simp [hc, Ne.symm hc])
    · intro inside
      rw [unclosed_cons, scan]
      by_cases hc : c = closing
      · have hco : c ≠ o := fun h => ho (h ▸ hc)
        rw [if_pos hc, List.mem_cons, hout]
        simp [hc, hc ▸ hco]
      · rw [if_neg hc, hin, List.mem_cons, not_or, and_iff_right (Ne.symm hc), ← or_assoc]
        exact or_congr_left (or_iff_left_of_imp fun h => h.2).symm

/-- **The opening marks that are text are those that are never closed.** -/
theorem inl_mem_spans {o : α} (ho : o ≠ closing) {text : List α} :
    .inl o ∈ spans [o] closing text ↔ Unclosed o closing text :=
  (inl_mem_scan ho text).1

end Spans
