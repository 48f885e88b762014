import Mathlib.Data.List.Infix
import Mathlib.Data.List.DropRight
import Mathlib.Tactic

/-!
# Words in printed text

Where a word occurs in a text that is put together from pieces, when some of the pieces share no
character with the word: nowhere but in the other pieces.

* `Apart.between`: a piece apart from the word separates what stands around it.
* `infix_flatten`: a text of lines, each ending in a character that the word does not have.
* `infix_strip`: characters that the word does not have can be cut off at both ends.
-/

namespace Token

variable {α : Type*} {w a b s : List α} {c : α}

/-- A text that shares no character with a word. -/
def Apart (w s : List α) : Prop := ∀ c ∈ s, c ∉ w

theorem Apart.append (ha : Apart w a) (hb : Apart w b) : Apart w (a ++ b) :=
  fun c hc => (List.mem_append.1 hc).elim (ha c) (hb c)

theorem Apart.not_infix (hne : w ≠ []) (hs : Apart w s) : ¬ w <:+: s := by
  intro hin
  obtain ⟨c, hc⟩ := List.exists_mem_of_ne_nil w hne
  exact hs c (hin.subset hc) hc

theorem infix_append_left (h : w <:+: a) (b : List α) : w <:+: a ++ b :=
  h.trans (List.prefix_append a b).isInfix

theorem infix_append_right (a : List α) (h : w <:+: b) : w <:+: a ++ b :=
  h.trans (List.suffix_append a b).isInfix

/-- A character that a word does not have cuts a text. -/
theorem infix_cut (hc : c ∉ w) : w <:+: a ++ c :: b ↔ w <:+: a ∨ w <:+: b := by
  constructor
  · rintro ⟨s, t, h⟩
    rw [List.append_assoc] at h
    rcases List.append_eq_append_iff.1 h with ⟨front, ha, hrest⟩ | ⟨rest, -, hrest⟩
    · rcases List.append_eq_append_iff.1 hrest with ⟨more, hfront, -⟩ | ⟨more, hw, hmore⟩
      · exact .inl ⟨s, more, by rw [ha, hfront, List.append_assoc]⟩
      · cases more with
        | nil => exact .inl ⟨s, [], by rw [ha, hw, List.append_nil, List.append_nil]⟩
        | cons d more =>
          have hd : d = c := (List.cons.inj hmore).1.symm
          exact absurd (hw ▸ List.mem_append_right _ (hd ▸ List.mem_cons_self)) hc
    · cases rest with
      | nil =>
        cases w with
        | nil => exact .inl (List.nil_infix)
        | cons d w => exact absurd ((List.cons.inj hrest).1 ▸ List.mem_cons_self) hc
      | cons d rest =>
        have hb : b = rest ++ (w ++ t) := (List.cons.inj hrest).2
        exact .inr ⟨rest, t, by rw [hb, List.append_assoc]⟩
  · rintro (h | h)
    · exact infix_append_left h _
    · exact infix_append_right a (h.trans (List.suffix_cons c b).isInfix)

/-- **A piece apart from the word separates what stands around it.** -/
theorem Apart.between (hs : Apart w s) (hne : s ≠ []) :
    w <:+: a ++ (s ++ b) ↔ w <:+: a ∨ w <:+: b := by
  induction s generalizing a with
  | nil => exact absurd rfl hne
  | cons c s ih =>
    have hc : c ∉ w := hs c List.mem_cons_self
    rw [List.cons_append, infix_cut hc]
    cases s with
    | nil => rw [List.nil_append]
    | cons d s =>
      have hrest : Apart w (d :: s) := fun e he => hs e (List.mem_cons_of_mem _ he)
      have hin := ih (a := []) hrest (List.cons_ne_nil d s)
      rw [List.nil_append] at hin
      rw [hin]
      constructor
      · rintro (h | h | h)
        · exact .inl h
        · exact .inl (h.trans (List.nil_infix))
        · exact .inr h
      · exact Or.imp_right .inr

/-- A piece apart from the word in front of a text. -/
theorem Apart.front (hw : w ≠ []) (hs : Apart w s) : w <:+: s ++ b ↔ w <:+: b := by
  cases s with
  | nil => rw [List.nil_append]
  | cons c s =>
    have h := hs.between (a := []) (b := b) (List.cons_ne_nil c s)
    rw [List.nil_append, List.infix_nil] at h
    exact h.trans (or_iff_right hw)

/-- A piece apart from the word behind a text. -/
theorem Apart.behind (hw : w ≠ []) (hs : Apart w s) : w <:+: a ++ s ↔ w <:+: a := by
  cases s with
  | nil => rw [List.append_nil]
  | cons c s =>
    have h := hs.between (a := a) (b := []) (List.cons_ne_nil c s)
    rw [List.append_nil, List.infix_nil] at h
    exact h.trans (or_iff_left hw)

/-- **A word in a text of lines stands in one of them**, when it has no line's last character. -/
theorem infix_flatten (hw : w ≠ []) {lines : List (List α)}
    (hlines : ∀ line ∈ lines, ∃ a, ∃ c, line = a ++ [c] ∧ c ∉ w) :
    w <:+: lines.flatten ↔ ∃ line ∈ lines, w <:+: line := by
  induction lines with
  | nil => simp [hw]
  | cons line lines ih =>
    obtain ⟨a, c, hline, hc⟩ := hlines line List.mem_cons_self
    have hin : w <:+: line ↔ w <:+: a := by
      rw [hline, infix_cut hc, List.infix_nil]
      exact or_iff_left hw
    rw [List.flatten_cons, List.exists_mem_cons_iff,
      ← ih fun line hmem => hlines line (List.mem_cons_of_mem _ hmem), hin, hline,
      List.append_assoc, List.singleton_append, infix_cut hc]

/-- **Characters that the word does not have can be cut off** in front. -/
theorem infix_dropWhile (hw : w ≠ []) {p : α → Bool} (hp : ∀ c ∈ w, ¬ p c) (s : List α) :
    w <:+: s.dropWhile p ↔ w <:+: s := by
  have hapart : Apart w (s.takeWhile p) := fun c hc hcw => hp c hcw (List.mem_takeWhile_imp hc)
  conv_rhs => rw [← List.takeWhile_append_dropWhile (p := p) (l := s)]
  exact (hapart.front hw).symm

/-- Characters that the word does not have can be cut off behind. -/
theorem infix_rdropWhile (hw : w ≠ []) {p : α → Bool} (hp : ∀ c ∈ w, ¬ p c) (s : List α) :
    w <:+: (s.reverse.dropWhile p).reverse ↔ w <:+: s := by
  have hrev : w.reverse <:+: s.reverse.dropWhile p ↔ w.reverse <:+: s.reverse :=
    infix_dropWhile (List.reverse_ne_nil_iff.2 hw) (fun c hc => hp c (List.mem_reverse.1 hc)) _
  rw [List.reverse_infix] at hrev
  rw [← hrev, ← List.reverse_infix, List.reverse_reverse]

end Token
