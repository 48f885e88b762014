import Astock.Lib.Lines

/-!
# Line numbers across a printer and a reader

A printer writes texts one after another, each ended with a line break, and numbers them; some texts
have an owner. A reader strips the white space around what was written, cuts it behind line breaks
and numbers what it finds. `Agree` says that the reader finds in the line of every owned text that
text, and in every other line nothing that has an owner. To state it, every character carries the
owner of its text.

* `agree_from`: from an owned text on, the numbers agree when no text has a line break in it, up to
  the last owned one.
* `agree_iff`: and what is in front of the first owned text has as many lines as texts.
-/

namespace Lines

variable {α κ : Type*} {blank : α → Bool} {text : κ → List α}

/-- A line is the one of a text: nothing in it has another owner, and the line of an owned text is
that text, up to white space at the end. -/
def IsLine (blank : α → Bool) (piece : List α × Option κ) (line : List (α × Option κ)) : Prop :=
  (∀ x ∈ line, x.2 = piece.2) ∧
    (piece.2 ≠ none → (line.map Prod.fst).rdropWhile blank = piece.1.rdropWhile blank)

/-- The lines are those of the texts, by their numbers. -/
def Agree (blank : α → Bool) : List (List α × Option κ) → List (List (α × Option κ)) → Prop
  | [], lines => ∀ line ∈ lines, ∀ x ∈ line, x.2 = none
  | piece :: pieces, [] => piece.2 = none ∧ Agree blank pieces []
  | piece :: pieces, line :: lines => IsLine blank piece line ∧ Agree blank pieces lines

/-- Every owned text is the one of its owner and starts with a mark. -/
def Owned (blank : α → Bool) (text : κ → List α) (pieces : List (List α × Option κ)) : Prop :=
  ∀ piece ∈ pieces, ∀ k ∈ piece.2, piece.1 = text k ∧ ∃ c rest, text k = c :: rest ∧ ¬ blank c

theorem Owned.tail {piece : List α × Option κ} {pieces : List (List α × Option κ)}
    (h : Owned blank text (piece :: pieces)) : Owned blank text pieces :=
  fun later hmem => h later (List.mem_cons_of_mem _ hmem)

theorem isLine_none {piece : List α × Option κ} (h : piece.2 = none) {line : List (α × Option κ)} :
    IsLine blank piece line ↔ ∀ x ∈ line, x.2 = none := by
  simp [IsLine, h]

/-- The numbers agree when they do so at every number. -/
theorem agree_iff_getElem : ∀ {pieces : List (List α × Option κ)} {lines : List (List (α × Option κ))},
    Agree blank pieces lines ↔ ∀ n : ℕ,
      (∀ piece ∈ pieces[n]?, piece.2 ≠ none → ∃ line ∈ lines[n]?, IsLine blank piece line) ∧
      ((pieces[n]?).bind Prod.snd = none →
        ∀ line : List (α × Option κ), line ∈ lines[n]? → ∀ x ∈ line, x.2 = none)
  | [], lines => by
    rw [Agree]
    constructor
    · intro h n
      refine ⟨fun piece hpiece => absurd hpiece (by simp), fun _ line hline => h line ?_⟩
      exact List.mem_of_getElem? hline
    · intro h line hline
      obtain ⟨n, hn⟩ := List.getElem?_of_mem hline
      exact (h n).2 (by simp) line hn
  | piece :: pieces, [] => by
    rw [Agree, agree_iff_getElem]
    constructor
    · rintro ⟨hnone, h⟩ n
      cases n with
      | zero => simp [hnone]
      | succ n => simpa using h n
    · intro h
      refine ⟨?_, fun n => by simpa using h (n + 1)⟩
      by_contra hsome
      obtain ⟨line, hline, -⟩ := (h 0).1 piece rfl hsome
      simp at hline
  | piece :: pieces, line :: lines => by
    rw [Agree, agree_iff_getElem]
    constructor
    · rintro ⟨hline, h⟩ n
      cases n with
      | zero =>
        refine ⟨fun piece' hpiece _ => ⟨line, rfl, ?_⟩, fun hnone line' hline' => ?_⟩
        · cases hpiece
          exact hline
        · cases hline'
          exact (isLine_none hnone).1 hline
      | succ n => exact h n
    · intro h
      refine ⟨?_, fun n => h (n + 1)⟩
      by_cases hnone : piece.2 = none
      · exact (isLine_none hnone).2 ((h 0).2 hnone line rfl)
      · obtain ⟨line', hline', his⟩ := (h 0).1 piece rfl hnone
        cases hline'
        exact his

/-- Texts without an owner agree with lines without one. -/
theorem agree_of_none {pieces : List (List α × Option κ)} (h : ∀ piece ∈ pieces, piece.2 = none)
    {lines : List (List (α × Option κ))} :
    Agree blank pieces lines ↔ ∀ line ∈ lines, ∀ x ∈ line, x.2 = none := by
  induction pieces generalizing lines with
  | nil => rfl
  | cons piece pieces ih =>
    have hpiece : piece.2 = none := h piece List.mem_cons_self
    have hrest : ∀ {lines : List (List (α × Option κ))},
        Agree blank pieces lines ↔ ∀ line ∈ lines, ∀ x ∈ line, x.2 = none :=
      ih fun later hmem => h later (List.mem_cons_of_mem _ hmem)
    cases lines with
    | nil => simp [Agree, hpiece, hrest]
    | cons line lines => rw [Agree, isLine_none hpiece, hrest, List.forall_mem_cons]

/-- Texts without an owner are in step when there are as many lines. -/
theorem agree_run {piece : List α × Option κ} {pieces : List (List α × Option κ)}
    (hsome : piece.2 ≠ none) {line : List (α × Option κ)} {lines : List (List (α × Option κ))}
    (hline : ¬ ∀ x ∈ line, x.2 = none) : ∀ {front : List (List α × Option κ)}
    {extra : List (List (α × Option κ))}, (∀ early ∈ front, early.2 = none) →
    (∀ early ∈ extra, early ≠ [] ∧ ∀ x ∈ early, x.2 = none) →
    (Agree blank (front ++ piece :: pieces) (extra ++ line :: lines) ↔
      extra.length = front.length ∧ Agree blank (piece :: pieces) (line :: lines))
  | [], [], _, _ => by simp
  | [], early :: extra, _, hextra => by
    rw [List.nil_append, List.cons_append, Agree]
    refine iff_of_false (fun hagree => hsome ?_) fun hboth => absurd hboth.1 (by simp)
    obtain ⟨hne, hnone⟩ := hextra early List.mem_cons_self
    obtain ⟨x, hx⟩ := List.exists_mem_of_ne_nil early hne
    exact (hagree.1.1 x hx).symm.trans (hnone x hx)
  | early :: front, [], hfront, _ => by
    rw [List.nil_append, List.cons_append, Agree, isLine_none (hfront early List.mem_cons_self)]
    exact iff_of_false (fun hagree => hline hagree.1) fun hboth => absurd hboth.1 (by simp)
  | early :: front, first :: extra, hfront, hextra => by
    rw [List.cons_append, List.cons_append, Agree, isLine_none (hfront early List.mem_cons_self),
      and_iff_right (hextra first List.mem_cons_self).2,
      agree_run hsome hline (fun later hmem => hfront later (List.mem_cons_of_mem _ hmem))
        fun later hmem => hextra later (List.mem_cons_of_mem _ hmem)]
    simp

/-! ## Printing -/

variable {nl : α}

/-- The characters of a text and its line break, with the owner of the text. -/
def taggedLine (nl : α) (piece : List α × Option κ) : List (α × Option κ) :=
  (piece.1 ++ [nl]).map (·, piece.2)

/-- What the printer writes. -/
def tagged (nl : α) (pieces : List (List α × Option κ)) : List (α × Option κ) :=
  pieces.flatMap (taggedLine nl)

/-- White space with an owner. -/
def tagBlank (blank : α → Bool) (x : α × Option κ) : Bool := blank x.1

theorem taggedLine_eq (nl : α) (piece : List α × Option κ) :
    taggedLine nl piece = piece.1.map (·, piece.2) ++ [(nl, piece.2)] := by
  rw [taggedLine, List.map_append]
  rfl

theorem map_fst_tag (l : List α) (owner : Option κ) : (l.map (·, owner)).map Prod.fst = l := by
  rw [List.map_map]
  exact List.map_id l

theorem map_fst_taggedLine (nl : α) (piece : List α × Option κ) :
    (taggedLine nl piece).map Prod.fst = piece.1 ++ [nl] :=
  map_fst_tag _ _

theorem mem_taggedLine {piece : List α × Option κ} {x : α × Option κ} (h : x ∈ taggedLine nl piece) :
    x.2 = piece.2 := by
  obtain ⟨c, -, rfl⟩ := List.mem_map.1 h
  rfl

/-- An owned text has a mark in it. -/
theorem exists_mark {pieces : List (List α × Option κ)} (h : Owned blank text pieces)
    (hsome : ¬ ∀ piece ∈ pieces, piece.2 = none) : ∃ x ∈ tagged nl pieces, ¬ tagBlank blank x := by
  rw [not_forall] at hsome
  obtain ⟨piece, hsome⟩ := hsome
  rw [Classical.not_imp] at hsome
  obtain ⟨hpiece, hsome⟩ := hsome
  obtain ⟨k, hk⟩ := Option.ne_none_iff_exists'.1 hsome
  obtain ⟨htext, c, rest, hmark, hc⟩ := h piece hpiece k hk
  refine ⟨(c, piece.2), List.mem_flatMap.2 ⟨piece, hpiece, ?_⟩, hc⟩
  refine List.mem_map.2 ⟨c, List.mem_append_left _ ?_, rfl⟩
  rw [htext, hmark]
  exact List.mem_cons_self

theorem mem_tagged_none {pieces : List (List α × Option κ)} (h : ∀ piece ∈ pieces, piece.2 = none) :
    ∀ x ∈ tagged nl pieces, x.2 = none := by
  intro x hx
  obtain ⟨piece, hpiece, hx⟩ := List.mem_flatMap.1 hx
  rw [mem_taggedLine hx, h piece hpiece]

theorem isLine_taggedLine (hnl : blank nl) (piece : List α × Option κ) :
    IsLine blank piece (taggedLine nl piece) := by
  refine ⟨fun x hx => mem_taggedLine hx, fun _ => ?_⟩
  rw [map_fst_taggedLine]
  exact rdropWhile_append_of_blank _ (by simp [hnl])

/-- A part of a text behind a line break is not the text. -/
theorem rdropWhile_ne_of_break (hnl : blank nl) {front rest part more : List α}
    (h : rest ++ [nl] = part ++ more) (hne : (front ++ nl :: rest).rdropWhile blank ≠ []) :
    part.rdropWhile blank ≠ (front ++ nl :: rest).rdropWhile blank := by
  intro heq
  have hmark : ∃ a ∈ part, ¬ blank a := by
    by_contra hall
    push Not at hall
    exact hne (heq ▸ List.rdropWhile_eq_nil_iff.2 hall)
  have hlong : (front ++ nl :: rest).rdropWhile blank =
      (front ++ [nl] ++ (part ++ more)).rdropWhile blank := by
    rw [← h, ← List.append_assoc,
      rdropWhile_append_of_blank (front ++ [nl] ++ rest) (by simp [hnl])]
    simp
  have hmark' : ∃ a ∈ part ++ more, ¬ blank a := by
    obtain ⟨a, ha, hblank⟩ := hmark
    exact ⟨a, List.mem_append_left _ ha, hblank⟩
  have hprefix : part.rdropWhile blank <+: (part ++ more).rdropWhile blank := by
    by_cases hmore : ∃ a ∈ more, ¬ blank a
    · rw [rdropWhile_append part hmore]
      exact (List.rdropWhile_prefix _ _).trans (List.prefix_append _ _)
    · push Not at hmore
      rw [rdropWhile_append_of_blank part hmore]
  rw [hlong, rdropWhile_append _ hmark'] at heq
  have hlength := hprefix.length_le
  rw [heq, List.length_append, List.length_append, List.length_singleton] at hlength
  omega

theorem Owned.of_append {front pieces : List (List α × Option κ)}
    (h : Owned blank text (front ++ pieces)) : Owned blank text pieces :=
  fun piece hmem => h piece (List.mem_append_right _ hmem)

/-- What is written from an owned text on starts with its mark. -/
theorem tagged_owned (nl : α) {piece : List α × Option κ} {pieces : List (List α × Option κ)}
    (h : Owned blank text (piece :: pieces)) (hsome : piece.2 ≠ none) :
    ∃ c k more, tagged nl (piece :: pieces) = (c, some k) :: more ∧ ¬ blank c := by
  obtain ⟨k, hk⟩ := Option.ne_none_iff_exists'.1 hsome
  obtain ⟨htext, c, tail, hmark, hc⟩ := h piece List.mem_cons_self k hk
  have hwritten : ∃ more, tagged nl (piece :: pieces) = (c, some k) :: more := by
    rw [tagged, List.flatMap_cons, taggedLine_eq, htext, hmark, hk]
    exact ⟨_, rfl⟩
  obtain ⟨more, hwritten⟩ := hwritten
  exact ⟨c, k, more, hwritten, hc⟩

theorem tagged_append (front pieces : List (List α × Option κ)) :
    tagged nl (front ++ pieces) = tagged nl front ++ tagged nl pieces :=
  List.flatMap_append

/-! ## Reading -/

variable [DecidableEq α]

/-- A line break with an owner. -/
def tagBreak (nl : α) (x : α × Option κ) : Bool := x.1 == nl

/-- What the reader finds in what is written from a text on. -/
def readFrom (nl : α) (blank : α → Bool) (pieces : List (List α × Option κ)) :
    List (List (α × Option κ)) :=
  split (tagBreak nl) ((tagged nl pieces).rdropWhile (tagBlank blank))

/-- What the reader finds. -/
def readLines (nl : α) (blank : α → Bool) (pieces : List (List α × Option κ)) :
    List (List (α × Option κ)) :=
  split (tagBreak nl) (trim (tagBlank blank) (tagged nl pieces))

/-- The line breaks in a text that starts with an owned text keep its lines where they are. -/
def AlignedFrom (nl : α) (blank : α → Bool) : List (List α × Option κ) → Prop
  | [] => True
  | piece :: pieces =>
    if ∀ later ∈ pieces, later.2 = none then
      piece.2 = none ∨ nl ∉ piece.1 ∨
        (∀ later ∈ pieces, ∀ c ∈ later.1, blank c) ∧ nl ∉ piece.1.rdropWhile blank
    else nl ∉ piece.1 ∧ AlignedFrom nl blank pieces

/-- A text without line breaks is one line. -/
theorem split_taggedLine {piece : List α × Option κ} (h : nl ∉ piece.1) :
    split (tagBreak nl) (taggedLine nl piece) = [taggedLine nl piece] := by
  rw [taggedLine_eq]
  refine split_line (by simp [tagBreak]) fun x hx => ?_
  obtain ⟨c, hc, rfl⟩ := List.mem_map.1 hx
  simpa [tagBreak] using fun heq : c = nl => h (heq ▸ hc)

/-- The line of a text is read on its own. -/
theorem split_taggedLine_append (piece : List α × Option κ) (rest : List (α × Option κ)) :
    split (tagBreak nl) (taggedLine nl piece ++ rest) =
      split (tagBreak nl) (taggedLine nl piece) ++ split (tagBreak nl) rest := by
  rw [taggedLine_eq, List.append_assoc, List.singleton_append]
  exact split_append (by simp [tagBreak]) _ _

/-- A text with a line break is at least two lines. -/
theorem split_taggedLine_broken {piece : List α × Option κ} (h : nl ∈ piece.1) :
    ∃ front rest, piece.1 = front ++ nl :: rest ∧ split (tagBreak nl) (taggedLine nl piece) =
      taggedLine nl (front, piece.2) :: split (tagBreak nl) (taggedLine nl (rest, piece.2)) := by
  obtain ⟨front, rest, hpiece, hfront⟩ := List.eq_append_cons_of_mem h
  refine ⟨front, rest, hpiece, ?_⟩
  have hcut : taggedLine nl piece = taggedLine nl (front, piece.2) ++ taggedLine nl (rest, piece.2) := by
    rw [taggedLine, hpiece]
    simp [taggedLine]
  rw [hcut, split_taggedLine_append, split_taggedLine hfront, List.singleton_append]

/-- What comes before a mark is read as it was written. -/
theorem readFrom_cons (piece : List α × Option κ) {pieces : List (List α × Option κ)}
    (h : ∃ x ∈ tagged nl pieces, ¬ tagBlank blank x) :
    readFrom nl blank (piece :: pieces) =
      split (tagBreak nl) (taggedLine nl piece) ++ readFrom nl blank pieces := by
  have hcons : tagged nl (piece :: pieces) = taggedLine nl piece ++ tagged nl pieces :=
    List.flatMap_cons
  rw [readFrom, hcons, rdropWhile_append _ h, split_taggedLine_append]
  rfl

/-- Nothing that is read has another owner than what was written. -/
theorem owner_of_mem_split {owner : Option κ} {written : List (α × Option κ)}
    (h : ∀ x ∈ written, x.2 = owner) : ∀ line ∈ split (tagBreak nl) written, ∀ x ∈ line, x.2 = owner :=
  fun _ hline x hx => h x (mem_of_mem_split hline hx)

/-! ## Texts with line breaks -/

/-- Texts with owners are out of step behind lines without one. -/
theorem not_agree_behind : ∀ {pieces : List (List α × Option κ)} {extra : List (List (α × Option κ))},
    Owned blank text pieces → (¬ ∀ piece ∈ pieces, piece.2 = none) → extra ≠ [] →
    (∀ line ∈ extra, line ≠ [] ∧ ∀ x ∈ line, x.2 = none) →
    ¬ Agree blank pieces (extra ++ readFrom nl blank pieces)
  | [], _, _, hsome, _, _, _ => hsome fun _ h => absurd h List.not_mem_nil
  | piece :: pieces, line :: extra, h, hsome, _, hextra, hagree => by
    rw [List.cons_append, Agree] at hagree
    obtain ⟨hline, hrest⟩ := hagree
    obtain ⟨hne, hnone⟩ := hextra line List.mem_cons_self
    cases hk : piece.2 with
    | some k =>
      obtain ⟨x, hx⟩ := List.exists_mem_of_ne_nil line hne
      have heq := (hline.1 x hx).symm.trans (hnone x hx)
      rw [hk] at heq
      exact absurd heq (by simp)
    | none =>
      have hlater : ¬ ∀ later ∈ pieces, later.2 = none := fun hall =>
        hsome (List.forall_mem_cons.2 ⟨hk, hall⟩)
      rw [readFrom_cons piece (exists_mark h.tail hlater), ← List.append_assoc] at hrest
      refine not_agree_behind h.tail hlater ?_ (fun line hmem => ?_) hrest
      · refine List.append_ne_nil_of_right_ne_nil extra fun hnil => ?_
        have hflat := @flatten_split _ (tagBreak nl) (taggedLine nl piece)
        rw [hnil] at hflat
        exact absurd hflat.symm (by simp [taggedLine])
      · rcases List.mem_append.1 hmem with hmem | hmem
        · exact hextra line (List.mem_cons_of_mem _ hmem)
        · refine ⟨ne_nil_of_mem_split hmem, owner_of_mem_split (fun x hx => ?_) line hmem⟩
          rw [mem_taggedLine hx, hk]

/-- A text with a line break puts what follows out of step. -/
theorem not_agree_broken (hnl : blank nl) {piece : List α × Option κ}
    {pieces : List (List α × Option κ)} (h : Owned blank text (piece :: pieces))
    (hlater : ¬ ∀ later ∈ pieces, later.2 = none) (hbreak : nl ∈ piece.1) :
    ¬ Agree blank (piece :: pieces) (readFrom nl blank (piece :: pieces)) := by
  obtain ⟨front, rest, hpiece, hsplit⟩ := split_taggedLine_broken hbreak
  rw [readFrom_cons piece (exists_mark h.tail hlater), hsplit, List.cons_append]
  rintro ⟨-, hrest⟩
  have howner : ∀ line ∈ split (tagBreak nl) (taggedLine nl (rest, piece.2)),
      line ≠ [] ∧ ∀ x ∈ line, x.2 = piece.2 := by
    have hrestOwner : ∀ x ∈ taggedLine nl (rest, piece.2), x.2 = piece.2 :=
      fun x hx => (mem_taggedLine hx :)
    exact fun line hline => ⟨ne_nil_of_mem_split hline, owner_of_mem_split hrestOwner line hline⟩
  obtain ⟨line, lines, hlines⟩ : ∃ line lines,
      split (tagBreak nl) (taggedLine nl (rest, piece.2)) = line :: lines := by
    rw [taggedLine_eq]
    cases rest with
    | nil => exact List.exists_cons_of_ne_nil (split_ne_nil _ _)
    | cons c rest => exact List.exists_cons_of_ne_nil (split_ne_nil _ _)
  cases hk : piece.2 with
  | none =>
    refine not_agree_behind h.tail hlater ?_ (fun line hline => ?_) hrest
    · rw [hlines]
      exact List.cons_ne_nil _ _
    · rw [← hk]
      exact howner line hline
  | some k =>
    cases pieces with
    | nil => exact hlater fun _ hmem => absurd hmem List.not_mem_nil
    | cons later pieces =>
      rw [hlines, List.cons_append] at hrest
      obtain ⟨⟨hsame, htext⟩, -⟩ := hrest
      obtain ⟨hne, hline⟩ := howner line (hlines ▸ List.mem_cons_self)
      obtain ⟨x, hx⟩ := List.exists_mem_of_ne_nil line hne
      have hlaterOwner : later.2 = some k := (hsame x hx).symm.trans ((hline x hx).trans hk)
      obtain ⟨hpieceText, c, tail, hmark, hc⟩ := h piece List.mem_cons_self k hk
      obtain ⟨hlaterText, -⟩ := h later (List.mem_cons_of_mem _ List.mem_cons_self) k hlaterOwner
      have hflat := @flatten_split _ (tagBreak nl) (taggedLine nl (rest, piece.2))
      rw [hlines, List.flatten_cons] at hflat
      have hcut : rest ++ [nl] = line.map Prod.fst ++ lines.flatten.map Prod.fst := by
        rw [← List.map_append, hflat, map_fst_taggedLine]
      refine rdropWhile_ne_of_break hnl hcut ?_ (?_ : _ = (front ++ nl :: rest).rdropWhile blank)
      · rw [← hpiece, hpieceText, hmark, Ne, List.rdropWhile_eq_nil_iff]
        exact fun hall => hc (hall c List.mem_cons_self)
      · rw [htext (by rw [hlaterOwner]; exact Option.some_ne_none k), hlaterText, ← hpieceText, hpiece]

/-- A line with an owner is out of step with texts without one. -/
theorem not_agree_owned {owner : κ} {pieces : List (List α × Option κ)}
    (h : ∀ piece ∈ pieces, piece.2 = none) {written : List (α × Option κ)} (hne : written ≠ [])
    (howner : ∀ x ∈ written, x.2 = some owner) (more : List (List (α × Option κ))) :
    ¬ Agree blank pieces (split (tagBreak nl) written ++ more) := by
  rw [agree_of_none h]
  intro hall
  obtain ⟨x, written, rfl⟩ := List.exists_cons_of_ne_nil hne
  have hx : x ∈ (split (tagBreak nl) (x :: written)).flatten := by
    rw [flatten_split]
    exact List.mem_cons_self
  obtain ⟨line, hline, hx⟩ := List.mem_flatten.1 hx
  have hnone := hall line (List.mem_append_left _ hline) x hx
  rw [howner x List.mem_cons_self] at hnone
  exact absurd hnone (by simp)

/-- The last owned text, with white space behind it. -/
theorem agree_last_blank {piece : List α × Option κ} {pieces : List (List α × Option κ)} {k : κ}
    (hnl : blank nl) (h : Owned blank text (piece :: pieces)) (hk : piece.2 = some k)
    (hlater : ∀ later ∈ pieces, later.2 = none)
    (hblank : ∀ later ∈ pieces, ∀ c ∈ later.1, blank c) :
    Agree blank (piece :: pieces) (readFrom nl blank (piece :: pieces)) ↔
      nl ∉ piece.1.rdropWhile blank := by
  obtain ⟨htext, c, tail, hmark, hc⟩ := h piece List.mem_cons_self k hk
  have hne : piece.1.rdropWhile blank ≠ [] := by
    rw [htext, hmark, Ne, List.rdropWhile_eq_nil_iff]
    exact fun hall => hc (hall c List.mem_cons_self)
  have hwritten : (tagged nl (piece :: pieces)).rdropWhile (tagBlank blank) =
      (piece.1.rdropWhile blank).map (·, piece.2) := by
    have hcons : tagged nl (piece :: pieces) = taggedLine nl piece ++ tagged nl pieces :=
      List.flatMap_cons
    have hrest : ∀ x ∈ tagged nl pieces, tagBlank blank x := by
      intro x hx
      obtain ⟨later, hmem, hx⟩ := List.mem_flatMap.1 hx
      obtain ⟨d, hd, rfl⟩ := List.mem_map.1 hx
      rcases List.mem_append.1 hd with hd | hd
      · exact hblank later hmem d hd
      · rw [List.mem_singleton.1 hd]
        exact hnl
    rw [hcons, rdropWhile_append_of_blank _ hrest, taggedLine,
      ← rdropWhile_append_of_blank piece.1 (r := [nl]) (by simp [hnl])]
    exact map_rdropWhile (·, piece.2) _
  rw [readFrom, hwritten]
  set kept := piece.1.rdropWhile blank
  constructor
  · intro hagree hbreak
    obtain ⟨front, rest, hkept, hfront⟩ := List.eq_append_cons_of_mem hbreak
    have hrest : rest ≠ [] := by
      rintro rfl
      have hstable : kept.rdropWhile blank = kept := List.rdropWhile_idempotent ..
      rw [hkept, List.rdropWhile_concat_pos _ _ _ hnl] at hstable
      have hlength : (front.rdropWhile blank).length ≤ front.length :=
        (List.rdropWhile_prefix _ _).length_le
      rw [hstable, List.length_append, List.length_singleton] at hlength
      omega
    have hcut : kept.map (·, piece.2) = taggedLine nl (front, piece.2) ++ rest.map (·, piece.2) := by
      rw [hkept]
      simp [taggedLine]
    rw [hcut, split_taggedLine_append, split_taggedLine hfront, List.singleton_append, Agree,
      ← List.append_nil (split _ _)] at hagree
    have howner : ∀ x ∈ rest.map (·, piece.2), x.2 = some k := by
      intro x hx
      obtain ⟨d, -, rfl⟩ := List.mem_map.1 hx
      exact hk
    exact not_agree_owned hlater (by simpa using hrest) howner [] hagree.2
  · intro hbreak
    have hopen : split (tagBreak nl) (kept.map (·, piece.2)) = [kept.map (·, piece.2)] := by
      refine split_open (by simpa using hne) fun x hx => ?_
      obtain ⟨d, hd, rfl⟩ := List.mem_map.1 hx
      simpa [tagBreak] using fun heq : d = nl => hbreak (heq ▸ hd)
    rw [hopen, Agree, agree_of_none hlater]
    refine ⟨⟨fun x hx => ?_, fun _ => ?_⟩, fun line hline => absurd hline List.not_mem_nil⟩
    · obtain ⟨d, -, rfl⟩ := List.mem_map.1 hx
      rfl
    · rw [map_fst_tag]
      exact List.rdropWhile_idempotent ..

/-- The last owned text, with more text behind it. -/
theorem agree_last_marked {piece : List α × Option κ} {pieces : List (List α × Option κ)} {k : κ}
    (hnl : blank nl) (hk : piece.2 = some k) (hlater : ∀ later ∈ pieces, later.2 = none)
    (hmark : ∃ x ∈ tagged nl pieces, ¬ tagBlank blank x) :
    Agree blank (piece :: pieces) (readFrom nl blank (piece :: pieces)) ↔ nl ∉ piece.1 := by
  rw [readFrom_cons piece hmark]
  constructor
  · intro hagree hbreak
    obtain ⟨front, rest, -, hsplit⟩ := split_taggedLine_broken hbreak
    rw [hsplit, List.cons_append, Agree] at hagree
    have howner : ∀ x ∈ taggedLine nl (rest, piece.2), x.2 = some k :=
      fun x hx => (mem_taggedLine hx).trans hk
    exact not_agree_owned hlater (by simp [taggedLine]) howner _ hagree.2
  · intro hbreak
    rw [split_taggedLine hbreak, List.singleton_append, Agree, agree_of_none hlater]
    refine ⟨isLine_taggedLine hnl piece, owner_of_mem_split fun x hx => ?_⟩
    exact mem_tagged_none hlater x ((List.rdropWhile_prefix _ _).subset hx)

/-- **From an owned text on**, the numbers agree when the texts up to the last owned one have no
line break in them. -/
theorem agree_from (hnl : blank nl) : ∀ {pieces : List (List α × Option κ)}, Owned blank text pieces →
    (Agree blank pieces (readFrom nl blank pieces) ↔ AlignedFrom nl blank pieces)
  | [], _ => by simp [Agree, AlignedFrom, readFrom, tagged]
  | piece :: pieces, h => by
    rw [AlignedFrom]
    split_ifs with hlater
    · cases hk : piece.2 with
      | none =>
        have hnone : ∀ later ∈ piece :: pieces, later.2 = none := List.forall_mem_cons.2 ⟨hk, hlater⟩
        rw [agree_of_none hnone]
        refine iff_of_true (owner_of_mem_split fun x hx => ?_) (.inl rfl)
        exact mem_tagged_none hnone x ((List.rdropWhile_prefix _ _).subset hx)
      | some k =>
        rw [or_iff_right (Option.some_ne_none k)]
        by_cases hblank : ∀ later ∈ pieces, ∀ c ∈ later.1, blank c
        · rw [agree_last_blank hnl h hk hlater hblank, and_iff_right hblank]
          refine (or_iff_right_of_imp fun hbreak hmem => hbreak ?_).symm
          exact (List.rdropWhile_prefix _ _).subset hmem
        · have hmark : ∃ x ∈ tagged nl pieces, ¬ tagBlank blank x := by
            push Not at hblank
            obtain ⟨later, hmem, c, hc, hblank⟩ := hblank
            refine ⟨(c, later.2), List.mem_flatMap.2 ⟨later, hmem, ?_⟩, hblank⟩
            exact List.mem_map_of_mem (List.mem_append_left _ hc)
          rw [agree_last_marked hnl hk hlater hmark]
          exact (or_iff_left fun hboth => hblank hboth.1).symm
    · by_cases hbreak : nl ∈ piece.1
      · exact iff_of_false (not_agree_broken hnl h hlater hbreak) fun hboth => hboth.1 hbreak
      · rw [readFrom_cons piece (exists_mark h.tail hlater), split_taggedLine hbreak,
          List.singleton_append, Agree, and_iff_right (isLine_taggedLine hnl piece),
          and_iff_right hbreak, agree_from hnl h.tail]

/-! ## What is in front of the first owned text -/

/-- The line breaks keep the lines of the owned texts where they are: those in front of the first
one are as many as the texts, after the white space at the start. -/
def Aligned (nl : α) (blank : α → Bool) (pieces : List (List α × Option κ)) : Prop :=
  (∀ piece ∈ pieces, piece.2 = none) ∨
    (((pieces.takeWhile (·.2.isNone)).flatMap (·.1 ++ [nl])).dropWhile blank).count nl =
      (pieces.takeWhile (·.2.isNone)).length ∧
    AlignedFrom nl blank (pieces.dropWhile (·.2.isNone))

/-- A text of whole lines, or without any. -/
def WholeLines (nl : α) (written : List (α × Option κ)) : Prop :=
  written = [] ∨ ∃ front c, tagBreak nl c ∧ written = front ++ [c]

theorem wholeLines_tagged (pieces : List (List α × Option κ)) : WholeLines nl (tagged nl pieces) := by
  rcases List.eq_nil_or_concat pieces with rfl | ⟨early, piece, rfl⟩
  · exact .inl rfl
  · refine .inr ⟨tagged nl early ++ piece.1.map (·, piece.2), (nl, piece.2), by simp [tagBreak], ?_⟩
    rw [List.concat_eq_append, tagged_append, List.append_assoc, ← taggedLine_eq]
    exact congrArg (tagged nl early ++ ·) (List.flatMap_singleton _ _)

theorem WholeLines.dropWhile {written : List (α × Option κ)} (h : WholeLines nl written)
    (p : α × Option κ → Bool) : WholeLines nl (written.dropWhile p) := by
  rcases h with rfl | ⟨front, c, hc, rfl⟩
  · exact .inl rfl
  · rw [List.dropWhile_append]
    split_ifs
    · by_cases hp : p c
      · exact .inl (by simp [hp])
      · exact .inr ⟨[], c, hc, by simp [hp]⟩
    · exact .inr ⟨_, c, hc, rfl⟩

/-- Whole lines are as many as their line breaks. -/
theorem WholeLines.length_split {written : List (α × Option κ)} (h : WholeLines nl written) :
    (split (tagBreak nl) written).length = (written.map Prod.fst).count nl := by
  have hcount : (written.map Prod.fst).count nl = written.countP (tagBreak nl) := by
    rw [List.count, List.countP_map]
    rfl
  rw [hcount]
  rcases h with rfl | ⟨front, c, hc, rfl⟩
  · rfl
  · rw [Lines.length_split hc, List.countP_append, List.countP_singleton, if_pos hc]

/-- What is read from an owned text on starts with a line that has an owner. -/
theorem readFrom_owned (nl : α) {piece : List α × Option κ} {pieces : List (List α × Option κ)}
    (h : Owned blank text (piece :: pieces)) (hsome : piece.2 ≠ none) :
    ∃ line lines, readFrom nl blank (piece :: pieces) = line :: lines ∧ ¬ ∀ x ∈ line, x.2 = none := by
  obtain ⟨c, k, more, hwritten, hc⟩ := tagged_owned nl h hsome
  have hkept : ∃ kept, ((c, some k) :: more).rdropWhile (tagBlank blank) = (c, some k) :: kept := by
    have hne : ((c, some k) :: more).rdropWhile (tagBlank blank) ≠ [] := by
      rw [Ne, List.rdropWhile_eq_nil_iff]
      exact fun hall => hc (hall _ List.mem_cons_self)
    obtain ⟨x, kept, hkept⟩ := List.exists_cons_of_ne_nil hne
    obtain ⟨rest, hprefix⟩ := List.rdropWhile_prefix (tagBlank blank) ((c, some k) :: more)
    rw [hkept, List.cons_append] at hprefix
    exact ⟨kept, by rw [hkept, (List.cons.inj hprefix).1]⟩
  obtain ⟨kept, hkept⟩ := hkept
  rw [readFrom, hwritten, hkept]
  have hne : split (tagBreak nl) ((c, some k) :: kept) ≠ [] := split_ne_nil _ _
  obtain ⟨line, lines, hlines⟩ := List.exists_cons_of_ne_nil hne
  refine ⟨line, lines, hlines, fun hnone => ?_⟩
  have hflat := @flatten_split _ (tagBreak nl) ((c, some k) :: kept)
  obtain ⟨x, line, rfl⟩ := List.exists_cons_of_ne_nil
    (ne_nil_of_mem_split (hlines ▸ List.mem_cons_self : line ∈ split (tagBreak nl) ((c, some k) :: kept)))
  rw [hlines, List.flatten_cons, List.cons_append] at hflat
  have hx := hnone x List.mem_cons_self
  rw [(List.cons.inj hflat).1] at hx
  exact absurd hx (by simp)

/-- **Printer and reader agree on the numbers** exactly when the line breaks keep the lines of the
owned texts where they are. -/
theorem agree_iff (hnl : blank nl) {pieces : List (List α × Option κ)}
    (h : Owned blank text pieces) :
    Agree blank pieces (readLines nl blank pieces) ↔ Aligned nl blank pieces := by
  rw [Aligned]
  by_cases hnone : ∀ piece ∈ pieces, piece.2 = none
  · rw [agree_of_none hnone]
    refine iff_of_true (owner_of_mem_split fun x hx => ?_) (.inl hnone)
    exact mem_tagged_none hnone x ((List.dropWhile_suffix _).subset ((List.rdropWhile_prefix _ _).subset hx))
  rw [or_iff_right hnone]
  set front := pieces.takeWhile (·.2.isNone) with hfrontDef
  have hsplit : front ++ pieces.dropWhile (·.2.isNone) = pieces := List.takeWhile_append_dropWhile
  have hfront : ∀ early ∈ front, early.2 = none := fun early hmem =>
    Option.isNone_iff_eq_none.1 (List.mem_takeWhile_imp hmem :)
  have hrest : ∃ piece later, pieces.dropWhile (·.2.isNone) = piece :: later ∧ piece.2 ≠ none := by
    have hne : pieces.dropWhile (·.2.isNone) ≠ [] := by
      rw [Ne, List.dropWhile_eq_nil_iff]
      exact fun hall => hnone fun piece hmem => Option.isNone_iff_eq_none.1 (hall piece hmem)
    obtain ⟨piece, later, hcons⟩ := List.exists_cons_of_ne_nil hne
    have hhead := List.head_dropWhile_not _ hne
    simp only [hcons, List.head_cons] at hhead
    exact ⟨piece, later, hcons, fun heq => by simp [heq] at hhead⟩
  obtain ⟨piece, later, hcons, hsome⟩ := hrest
  rw [hcons] at hsplit ⊢
  have hown : Owned blank text (piece :: later) := Owned.of_append (hsplit ▸ h)
  have hmark : ∃ x ∈ tagged nl (piece :: later), ¬ tagBlank blank x :=
    exists_mark hown fun hall => hsome (hall piece List.mem_cons_self)
  -- the white space at the start ends before the first owned text
  have hread : readLines nl blank pieces =
      split (tagBreak nl) ((tagged nl front).dropWhile (tagBlank blank)) ++
        readFrom nl blank (piece :: later) := by
    obtain ⟨c, k, more, hwritten, hc⟩ := tagged_owned nl hown hsome
    have hstart : (tagged nl pieces).dropWhile (tagBlank blank) =
        (tagged nl front).dropWhile (tagBlank blank) ++ tagged nl (piece :: later) := by
      have hkeep : (tagged nl (piece :: later)).dropWhile (tagBlank blank) = tagged nl (piece :: later) := by
        rw [hwritten]
        exact List.dropWhile_cons_of_neg hc
      rw [← hsplit, tagged_append, List.dropWhile_append]
      split_ifs with hempty
      · rw [List.isEmpty_iff.1 hempty, List.nil_append]
        exact hkeep
      · rfl
    rw [readLines, trim, hstart, rdropWhile_append _ hmark,
      split_append_of_ends ((wholeLines_tagged front).dropWhile _)]
    rfl
  have hlength : (split (tagBreak nl) ((tagged nl front).dropWhile (tagBlank blank))).length =
      ((front.flatMap (·.1 ++ [nl])).dropWhile blank).count nl := by
    have htext : (tagged nl front).map Prod.fst = front.flatMap (·.1 ++ [nl]) := by
      rw [tagged, List.map_flatMap]
      exact congrArg (List.flatMap · front) (funext (map_fst_taggedLine nl))
    rw [((wholeLines_tagged front).dropWhile _).length_split, ← htext, List.dropWhile_map]
    rfl
  obtain ⟨line, lines, hlines, hline⟩ := readFrom_owned nl hown hsome
  rw [hread, ← agree_from hnl hown, hlines, ← hlength]
  conv_lhs => rw [← hsplit]
  refine agree_run hsome hline hfront fun early hmem => ⟨ne_nil_of_mem_split hmem, ?_⟩
  refine owner_of_mem_split (fun x hx => ?_) early hmem
  exact mem_tagged_none hfront x ((List.dropWhile_suffix _).subset hx)

end Lines
