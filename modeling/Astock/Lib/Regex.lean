import Mathlib.Data.List.TakeWhile
import Mathlib.Tactic

/-!
# Regular expressions

Patterns whose matches are ordered as in leftmost-first search: an alternative is preferred to those
after it, a repetition takes as much as it can. Classes are repeated, not patterns, and no pattern
that is searched for matches the empty text.

* `runs_local`: the matches of a text are those of a longer text that end in it, in their order.
* `matchAt_self`: the match that is found is the match of its own text.
* `Avoids`, `not_mem_run`: a character that no class of a pattern has is in none of its matches.
* `mem_findIter`, `find_self`: what a search finds.
-/

inductive Regex
  | empty
  /-- A class, repeated at least `least` times and at most `most`. -/
  | chars (p : Char → Bool) (least : ℕ) (most : Option ℕ)
  | seq (r s : Regex)
  | alt (r s : Regex)
  | group (name : String) (r : Regex)

namespace Regex

/-- One character of a class. -/
def char (p : Char → Bool) : Regex := chars p 1 (some 1)

def lit (s : String) : Regex := s.toList.foldr (fun c r => seq (char (· = c)) r) empty

def opt (r : Regex) : Regex := alt r empty

/-- The alternatives, the first preferred. -/
def oneOf (rs : List Regex) : Regex := rs.foldr alt (char fun _ => false)

/-- The most characters of a class that a repetition takes at the beginning of a text. -/
def longestRun (p : Char → Bool) (most : Option ℕ) (s : List Char) : ℕ :=
  match most with
  | some most => min (s.takeWhile p).length most
  | none => (s.takeWhile p).length

/-- The matches at the beginning of a text in the order of preference: their groups, and how many
characters they take. -/
def runs : Regex → List Char → List (List (String × List Char) × ℕ)
  | empty, _ => [([], 0)]
  | chars p least most, s =>
    ((List.range (longestRun p most s + 1)).reverse.filter (least ≤ ·)).map fun n => ([], n)
  | seq r t, s => (runs r s).flatMap fun a => (runs t (s.drop a.2)).map fun b => (a.1 ++ b.1, a.2 + b.2)
  | alt r t, s => runs r s ++ runs t s
  | group name r, s => (runs r s).map fun a => ((name, s.take a.2) :: a.1, a.2)

structure Match where
  text : List Char
  groups : List (String × List Char)
  deriving DecidableEq

/-- `caps.name(name)`. -/
def Match.name (m : Match) (name : String) : Option (List Char) := m.groups.lookup name

/-- The preferred match at the beginning of a text. -/
def matchAt (r : Regex) (s : List Char) : Option Match :=
  (runs r s).head?.map fun a => ⟨s.take a.2, a.1⟩

/-- The matches from left to right, each behind the one before; the first characters are passed
over. -/
def scan (r : Regex) : ℕ → List Char → List Match
  | _, [] => []
  | skipped + 1, _ :: s => scan r skipped s
  | 0, c :: s =>
    match matchAt r (c :: s) with
    | some m => m :: scan r (m.text.length - 1) s
    | none => scan r 0 s

/-- `find_iter` and `captures_iter`. -/
def findIter (r : Regex) (text : String) : List Match := scan r 0 text.toList

/-- `find` and `captures`. -/
def find (r : Regex) (text : String) : Option Match := (findIter r text).head?

/-! ## Matches -/

variable {r : Regex} {s t u : List Char} {a : List (String × List Char) × ℕ} {m : Match} {c : Char}

/-- The fewest characters that a match takes. -/
def minLength : Regex → ℕ
  | empty => 0
  | chars _ least _ => least
  | seq r t => minLength r + minLength t
  | alt r t => min (minLength r) (minLength t)
  | group _ r => minLength r

/-- No class of the pattern has the character. -/
def Avoids (c : Char) : Regex → Prop
  | empty => True
  | chars p _ _ => p c = false
  | seq r t => Avoids c r ∧ Avoids c t
  | alt r t => Avoids c r ∧ Avoids c t
  | group _ r => Avoids c r

theorem avoids_char {p : Char → Bool} (h : p c = false) : (char p).Avoids c := h

theorem avoids_lit {text : String} (h : c ∉ text.toList) : (lit text).Avoids c := by
  rw [lit]
  generalize text.toList = l at h
  induction l with
  | nil => trivial
  | cons d l ih =>
    obtain ⟨hd, hl⟩ := not_or.1 (mt List.mem_cons.2 h)
    exact ⟨decide_eq_false hd, ih hl⟩

theorem avoids_oneOf {rs : List Regex} (h : ∀ r ∈ rs, r.Avoids c) : (oneOf rs).Avoids c := by
  induction rs with
  | nil => rfl
  | cons r rs ih =>
    exact ⟨h r List.mem_cons_self, ih fun r' hr' => h r' (List.mem_cons_of_mem r hr')⟩

theorem mem_chars {p : Char → Bool} {least : ℕ} {most : Option ℕ} (h : a ∈ runs (chars p least most) s) :
    least ≤ a.2 ∧ a.2 ≤ (s.takeWhile p).length := by
  obtain ⟨n, hn, rfl⟩ := List.mem_map.1 h
  obtain ⟨hrange, hleast⟩ := List.mem_filter.1 hn
  have hlt := List.mem_range.1 (List.mem_reverse.1 hrange)
  refine ⟨of_decide_eq_true hleast, ?_⟩
  cases most with
  | none => exact Nat.lt_succ_iff.1 hlt
  | some most => exact (Nat.lt_succ_iff.1 hlt).trans (min_le_left _ _)

theorem minLength_le (h : a ∈ runs r s) : minLength r ≤ a.2 := by
  induction r generalizing s a with
  | empty => exact Nat.zero_le _
  | chars p least most => exact (mem_chars h).1
  | seq r t ihr iht =>
    obtain ⟨b, hb, h⟩ := List.mem_flatMap.1 h
    obtain ⟨d, hd, rfl⟩ := List.mem_map.1 h
    exact Nat.add_le_add (ihr hb) (iht hd)
  | alt r t ihr iht =>
    rcases List.mem_append.1 h with h | h
    · exact (min_le_left _ _).trans (ihr h)
    · exact (min_le_right _ _).trans (iht h)
  | group name r ih =>
    obtain ⟨b, hb, rfl⟩ := List.mem_map.1 h
    exact (ih hb : minLength r ≤ b.2)

/-- A match takes no more than there is. -/
theorem run_le_length (h : a ∈ runs r s) : a.2 ≤ s.length := by
  induction r generalizing s a with
  | empty =>
    rw [List.mem_singleton.1 h]
    exact Nat.zero_le _
  | chars p least most => exact (mem_chars h).2.trans (List.takeWhile_prefix p).length_le
  | seq r t ihr iht =>
    obtain ⟨b, hb, h⟩ := List.mem_flatMap.1 h
    obtain ⟨d, hd, rfl⟩ := List.mem_map.1 h
    have hfirst := ihr hb
    have hsecond := iht hd
    rw [List.length_drop] at hsecond
    change b.2 + d.2 ≤ s.length
    omega
  | alt r t ihr iht =>
    rcases List.mem_append.1 h with h | h
    · exact ihr h
    · exact iht h
  | group name r ih =>
    obtain ⟨b, hb, rfl⟩ := List.mem_map.1 h
    exact (ih hb : b.2 ≤ s.length)

/-- **A character that the pattern avoids** is in none of its matches. -/
theorem not_mem_run (havoids : r.Avoids c) (h : a ∈ runs r s) : c ∉ s.take a.2 := by
  induction r generalizing s a with
  | empty =>
    rw [List.mem_singleton.1 h, List.take_zero]
    exact List.not_mem_nil
  | chars p least most =>
    intro hmem
    have hle := (mem_chars h).2
    have hrun : s.take a.2 <+: s.takeWhile p :=
      List.prefix_of_prefix_length_le (List.take_prefix _ _) (List.takeWhile_prefix p)
        ((List.length_take_le _ _).trans hle)
    have hp : p c = true := List.mem_takeWhile_imp (hrun.subset hmem)
    rw [havoids] at hp
    cases hp
  | seq r t ihr iht =>
    obtain ⟨b, hb, h⟩ := List.mem_flatMap.1 h
    obtain ⟨d, hd, rfl⟩ := List.mem_map.1 h
    change c ∉ s.take (b.2 + d.2)
    rw [List.take_add]
    intro hmem
    rcases List.mem_append.1 hmem with hmem | hmem
    · exact ihr havoids.1 hb hmem
    · exact iht havoids.2 hd hmem
  | alt r t ihr iht =>
    rcases List.mem_append.1 h with h | h
    · exact ihr havoids.1 h
    · exact iht havoids.2 h
  | group name r ih =>
    obtain ⟨b, hb, rfl⟩ := List.mem_map.1 h
    exact (ih havoids hb : c ∉ s.take b.2)

theorem longestRun_local (p : Char → Bool) (most : Option ℕ) (t u : List Char) :
    longestRun p most t = min (longestRun p most (t ++ u)) t.length := by
  have hrun : (t.takeWhile p).length = min ((t ++ u).takeWhile p).length t.length := by
    have hle : (t.takeWhile p).length ≤ t.length := (List.takeWhile_prefix p).length_le
    rw [List.takeWhile_append]
    by_cases hall : (t.takeWhile p).length = t.length
    · rw [if_pos hall, List.length_append]
      omega
    · rw [if_neg hall]
      omega
  cases most with
  | none => exact hrun
  | some most =>
    change min (t.takeWhile p).length most = _
    rw [hrun]
    exact min_right_comm _ _ _

theorem range_filter_le (n k : ℕ) :
    (List.range (n + 1)).filter (· ≤ k) = List.range (min n k + 1) := by
  induction n with
  | zero => simp
  | succ n ih =>
    rw [List.range_succ, List.filter_append, ih]
    by_cases hk : n + 1 ≤ k
    · have hn : min n k = n := by omega
      have hsucc : min (n + 1) k = n + 1 := by omega
      rw [hn, hsucc, List.range_succ (n := n + 1)]
      simp [hk]
    · have hsame : min n k = min (n + 1) k := by omega
      rw [hsame]
      simp [hk]

/-- What a filter leaves out contributes nothing. -/
theorem flatMap_filter {α β : Type} {p : α → Bool} {f g : α → List β} {l : List α}
    (hkept : ∀ a ∈ l, p a → f a = g a) (hdropped : ∀ a ∈ l, ¬p a → f a = []) :
    l.flatMap f = (l.filter p).flatMap g := by
  induction l with
  | nil => rfl
  | cons a l ih =>
    have htail := ih (fun b hb => hkept b (List.mem_cons_of_mem a hb))
      fun b hb => hdropped b (List.mem_cons_of_mem a hb)
    by_cases ha : p a
    · rw [List.filter_cons_of_pos ha, List.flatMap_cons, List.flatMap_cons, htail,
        hkept a List.mem_cons_self ha]
    · rw [List.filter_cons_of_neg ha, List.flatMap_cons, htail, hdropped a List.mem_cons_self ha,
        List.nil_append]

/-- **The matches of a text** are those of a longer text that end in it, in their order. -/
theorem runs_local (r : Regex) (t u : List Char) :
    runs r t = (runs r (t ++ u)).filter (·.2 ≤ t.length) := by
  induction r generalizing t with
  | empty => rfl
  | chars p least most =>
    -- a repetition that ends in the text is as long in both
    rw [runs, runs, List.filter_map, List.filter_filter, longestRun_local p most t u]
    rw [← range_filter_le, ← List.filter_reverse, List.filter_filter]
    congr 1
    refine List.filter_congr fun n _ => ?_
    exact Bool.and_comm _ _
  | seq r s ihr ihs =>
    rw [runs, runs, List.filter_flatMap, ihr t]
    symm
    refine flatMap_filter (fun b _ hb => ?_) fun b _ hb => ?_
    · have hle : b.2 ≤ t.length := of_decide_eq_true hb
      rw [List.drop_append_of_le_length hle, List.filter_map, ihs (t.drop b.2)]
      congr 1
      refine List.filter_congr fun d _ => ?_
      rw [List.length_drop]
      change decide (b.2 + d.2 ≤ t.length) = decide (d.2 ≤ t.length - b.2)
      refine decide_eq_decide.2 ?_
      omega
    · have hlt : ¬ b.2 ≤ t.length := fun h => hb (decide_eq_true h)
      refine List.filter_eq_nil_iff.2 fun d hd hle => ?_
      obtain ⟨e, -, rfl⟩ := List.mem_map.1 hd
      have hsum : b.2 + e.2 ≤ t.length := of_decide_eq_true hle
      omega
  | alt r s ihr ihs => rw [runs, runs, List.filter_append, ihr t, ihs t]
  | group name r ih =>
    rw [runs, runs, List.filter_map, ih t]
    refine List.map_congr_left fun b hb => ?_
    have hle : b.2 ≤ t.length := of_decide_eq_true (List.mem_filter.1 hb).2
    rw [List.take_append_of_le_length hle]

/-- **The match that is found** is the match of its own text. -/
theorem matchAt_self (h : matchAt r s = some m) : matchAt r m.text = some m := by
  obtain ⟨a, ha, rfl⟩ := Option.map_eq_some_iff.1 h
  obtain ⟨rest, hruns⟩ := List.head?_eq_some_iff.1 ha
  have hmem : a ∈ runs r s := by
    rw [hruns]
    exact List.mem_cons_self
  have hlength : (s.take a.2).length = a.2 := List.length_take_of_le (run_le_length hmem)
  have hlocal := runs_local r (s.take a.2) (s.drop a.2)
  rw [List.take_append_drop, hruns, hlength, List.filter_cons_of_pos (by simp)] at hlocal
  change matchAt r (s.take a.2) = _
  rw [matchAt, hlocal, List.head?_cons, Option.map_some, List.take_take, min_self]

/-! ## Searches -/

theorem matchAt_eq (h : matchAt r s = some m) : ∃ a ∈ runs r s, m.text = s.take a.2 := by
  obtain ⟨a, ha, rfl⟩ := Option.map_eq_some_iff.1 h
  exact ⟨a, List.mem_of_mem_head? ha, rfl⟩

/-- What a scan finds is a match somewhere in the text. -/
theorem mem_scan {n : ℕ} (h : m ∈ scan r n s) : ∃ before rest, s = before ++ rest ∧
    matchAt r rest = some m := by
  induction s generalizing n with
  | nil => cases n <;> cases h
  | cons c s ih =>
    have hlater : ∀ n, m ∈ scan r n s → ∃ before rest, c :: s = before ++ rest ∧
        matchAt r rest = some m := by
      intro n h
      obtain ⟨before, rest, hs, hm⟩ := ih h
      exact ⟨c :: before, rest, by rw [hs]; rfl, hm⟩
    cases n with
    | succ n => exact hlater n h
    | zero =>
      rw [scan] at h
      cases hm : matchAt r (c :: s) with
      | none =>
        rw [hm] at h
        exact hlater 0 h
      | some first =>
        rw [hm] at h
        rcases List.mem_cons.1 h with rfl | h
        · exact ⟨[], c :: s, rfl, hm⟩
        · exact hlater _ h

/-- **What a search finds** is in the text, and is the match of its own text. -/
theorem mem_findIter {text : String} (h : m ∈ findIter r text) :
    m.text <:+: text.toList ∧ matchAt r m.text = some m := by
  obtain ⟨before, rest, htext, hm⟩ := mem_scan h
  refine ⟨?_, matchAt_self hm⟩
  obtain ⟨a, -, heq⟩ := matchAt_eq hm
  rw [heq, htext]
  exact (List.take_prefix a.2 rest).isInfix.trans (List.suffix_append before rest).isInfix

theorem not_mem_of_find {text : String} (havoids : r.Avoids c) (h : m ∈ findIter r text) :
    c ∉ m.text := by
  obtain ⟨a, ha, heq⟩ := matchAt_eq (mem_findIter h).2
  rw [heq]
  exact not_mem_run havoids ha

/-- **A search in the text of a match** finds it. -/
theorem find_self {text : String} (hlength : 0 < r.minLength) (h : m ∈ findIter r text) :
    find r (String.ofList m.text) = some m := by
  have hself := (mem_findIter h).2
  obtain ⟨a, ha, heq⟩ := matchAt_eq hself
  have hpos : 0 < a.2 := lt_of_lt_of_le hlength (minLength_le ha)
  have hle := run_le_length ha
  rw [find, findIter, String.toList_ofList]
  cases htext : m.text with
  | nil =>
    rw [htext, List.length_nil] at hle
    omega
  | cons c s =>
    rw [scan, ← htext, hself]
    rfl

end Regex
