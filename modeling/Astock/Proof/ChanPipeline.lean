import Astock.Spec.Chan

/-!
# The shape of the Chan pipeline

The merged klines are free of containment, and what the later stages rely on is a consequence: two
neighbouring klines rise or fall together, so that fractals are the turns of a zigzag.

* `separated_mergeFrom`: widening the current segment along its direction keeps it apart from the
  one before.
* `turns_fractalsFrom`: a fractal is a turn away from the one before.
* `Held`: what the stroke loop knows about its start and its endpoint.
* `pipeline_shape`: the shape of the segments, the fractals and the strokes.
-/

namespace Astock.Chan

variable {F : Type} [LinearOrder F]

/-! ## Segments -/

/-- Both prices are strictly higher on the later segment. -/
def Rises (a b : MergedDailyKline F) : Prop := a.high < b.high ∧ a.low < b.low

/-- Two segments are strictly ordered in the direction recorded on the later one. -/
def Separated (a b : MergedDailyKline F) : Prop :=
  (b.direction = 1 ∧ Rises a b) ∨ (b.direction = -1 ∧ Rises b a)

/-- The segment stands for a run of klines. -/
structure Covers (segment : MergedDailyKline F) (bars : List (Bar F)) : Prop where
  start : bars.head?.map Bar.date = some segment.dateStart
  stop : bars.getLast?.map Bar.date = some segment.dateEnd
  count : segment.rawCount = bars.length

theorem Separated.rises_or {a b : MergedDailyKline F} (h : Separated a b) :
    Rises a b ∨ Rises b a := by
  obtain ⟨-, h⟩ | ⟨-, h⟩ := h
  · exact .inl h
  · exact .inr h

/-- A segment is widened away from the one before. -/
theorem Separated.absorb {a cur : MergedDailyKline F} (h : Separated a cur) (bar : Bar F) :
    Separated a (cur.absorb bar) := by
  obtain ⟨hdir, hhigh, hlow⟩ | ⟨hdir, hhigh, hlow⟩ := h
  · refine .inl ⟨hdir, ?_, ?_⟩
    · simpa [MergedDailyKline.absorb, hdir] using .inr hhigh
    · simpa [MergedDailyKline.absorb, hdir] using .inr hlow
  · refine .inr ⟨hdir, ?_, ?_⟩
    · simpa [MergedDailyKline.absorb, hdir] using .inr hhigh
    · simpa [MergedDailyKline.absorb, hdir] using .inr hlow

/-- A kline that is not contained opens a segment apart. -/
theorem separated_open {cur : MergedDailyKline F} {bar : Bar F} (h : ¬ cur.contains bar) :
    Separated cur (openSegment bar (directionOf cur bar)) := by
  simp only [MergedDailyKline.contains, not_or, not_and, not_le] at h
  obtain ⟨hinside, haround⟩ := h
  by_cases hup : cur.high < bar.high
  · exact .inl ⟨if_pos hup, hup, haround hup.le⟩
  · have hdown : bar.low < cur.low := hinside (not_lt.1 hup)
    have hhigh : bar.high < cur.high :=
      not_le.1 fun hle => (haround hle).asymm hdown
    exact .inr ⟨if_neg hup, hhigh, hdown⟩

/-- **The merge invariant.** The segments pushed so far and the current one are a chain. -/
theorem separated_mergeFrom (bars : List (Bar F)) :
    ∀ (front : List (MergedDailyKline F)) (cur : MergedDailyKline F),
      (front ++ [cur]).IsChain Separated → (front ++ mergeFrom cur bars).IsChain Separated := by
  induction bars with
  | nil => exact fun _ _ h => h
  | cons bar bars ih =>
    intro front cur h
    simp only [mergeFrom]
    split
    · refine ih front (cur.absorb bar) ?_
      rw [List.isChain_append] at h ⊢
      refine ⟨h.1, .singleton _, fun a ha b hb => ?_⟩
      obtain rfl : cur.absorb bar = b := by simpa using hb
      exact (h.2.2 a ha cur (by simp)).absorb bar
    · rename_i hout
      have hnext := ih (front ++ [cur]) (openSegment bar (directionOf cur bar)) ?_
      · simpa using hnext
      · rw [List.isChain_append]
        refine ⟨h, .singleton _, fun a ha b hb => ?_⟩
        obtain rfl : cur = a := by simpa using ha
        obtain rfl : openSegment bar (directionOf cur bar) = b := by simpa using hb
        exact separated_open hout

theorem absorb_ordered {cur : MergedDailyKline F} {bar : Bar F} (hcur : cur.low ≤ cur.high)
    (hbar : bar.low ≤ bar.high) : (cur.absorb bar).low ≤ (cur.absorb bar).high := by
  simp only [MergedDailyKline.absorb]
  split <;> split
  · rename_i hdown hup
    omega
  · exact max_le_max hbar hcur
  · exact min_le_min hbar hcur
  · exact (min_le_left _ _).trans (hbar.trans (le_max_left _ _))

theorem ordered_mergeFrom (bars : List (Bar F)) :
    ∀ cur : MergedDailyKline F, cur.low ≤ cur.high → (∀ bar ∈ bars, bar.low ≤ bar.high) →
      ∀ k ∈ mergeFrom cur bars, k.low ≤ k.high := by
  induction bars with
  | nil =>
    intro cur hcur _ k hk
    obtain rfl : k = cur := by simpa [mergeFrom] using hk
    exact hcur
  | cons bar bars ih =>
    intro cur hcur hbars k hk
    obtain ⟨hbar, hrest⟩ := List.forall_mem_cons.1 hbars
    simp only [mergeFrom] at hk
    split at hk
    · exact ih _ (absorb_ordered hcur hbar) hrest k hk
    · obtain rfl | hk := List.mem_cons.1 hk
      · exact hcur
      · exact ih _ hbar hrest k hk

theorem Covers.absorb {cur : MergedDailyKline F} {part : List (Bar F)} (h : Covers cur part)
    (bar : Bar F) : Covers (cur.absorb bar) (part ++ [bar]) where
  start := by
    have hne : part ≠ [] := by
      rintro rfl
      simpa using h.start
    rw [List.head?_append_of_ne_nil _ hne]
    exact h.start
  stop := by simp [MergedDailyKline.absorb]
  count := by simp [MergedDailyKline.absorb, h.count]

omit [LinearOrder F] in
theorem covers_open (bar : Bar F) (direction : ℤ) : Covers (openSegment bar direction) [bar] :=
  ⟨rfl, rfl, rfl⟩

/-- The segments stand for consecutive runs, the first of which begins with the klines that the
current segment has taken up. -/
theorem parts_mergeFrom (bars : List (Bar F)) :
    ∀ (cur : MergedDailyKline F) (part : List (Bar F)), Covers cur part →
      ∃ parts, List.Forall₂ Covers (mergeFrom cur bars) parts ∧ parts.flatten = part ++ bars := by
  induction bars with
  | nil => exact fun cur part h => ⟨[part], .cons h .nil, by simp⟩
  | cons bar bars ih =>
    intro cur part h
    simp only [mergeFrom]
    split
    · obtain ⟨parts, hparts, hflat⟩ := ih _ _ (h.absorb bar)
      exact ⟨parts, hparts, by simpa using hflat⟩
    · obtain ⟨parts, hparts, hflat⟩ := ih _ _ (covers_open bar _)
      exact ⟨part :: parts, .cons h hparts, by simpa using hflat⟩

/-! ## Fractals -/

/-- A fractal follows another as a turn of a zigzag. -/
def Turn (a b : DailyFractal F) : Prop :=
  a.index < b.index ∧
    ((a.fractalType = .top ∧ b.fractalType = .bottom ∧ b.price < a.price) ∨
      (a.fractalType = .bottom ∧ b.fractalType = .top ∧ a.price < b.price))

theorem Turn.type_ne {a b : DailyFractal F} (h : Turn a b) : a.fractalType ≠ b.fractalType := by
  obtain ⟨-, ⟨ha, hb, -⟩ | ⟨ha, hb, -⟩⟩ := h <;> rw [ha, hb] <;> decide

/-- From the last fractal on, prices have moved one way only. -/
def Leads (g : DailyFractal F) (index : ℕ) (left cur : MergedDailyKline F) : Prop :=
  g.index < index ∧
    ((g.fractalType = .bottom ∧ Rises left cur ∧ g.price ≤ left.low) ∨
      (g.fractalType = .top ∧ Rises cur left ∧ left.high ≤ g.price))

/-- Where neighbours are separated, a fractal is a change of direction. -/
theorem fractalAt_cases {index : ℕ} {left cur right : MergedDailyKline F} {f : DailyFractal F}
    (hleft : Rises left cur ∨ Rises cur left) (hright : Rises cur right ∨ Rises right cur)
    (h : fractalAt index left cur right = some f) :
    (Rises left cur ∧ Rises right cur ∧ f = ⟨index, .top, cur.high, cur.dateEnd⟩) ∨
      (Rises cur left ∧ Rises cur right ∧ f = ⟨index, .bottom, cur.low, cur.dateEnd⟩) := by
  simp only [fractalAt] at h
  split at h
  · rename_i htop
    refine .inl ⟨hleft.resolve_right ?_, hright.resolve_left ?_, (Option.some.inj h).symm⟩
    · exact fun hfall => hfall.1.asymm htop.1
    · exact fun hrise => hrise.1.asymm htop.2
  · split at h
    · rename_i hbottom
      refine .inr ⟨hleft.resolve_left ?_, hright.resolve_right ?_, (Option.some.inj h).symm⟩
      · exact fun hrise => hrise.2.asymm hbottom.1
      · exact fun hfall => hfall.2.asymm hbottom.2
    · cases h

theorem leads_of_fractal {index : ℕ} {left cur right : MergedDailyKline F} {f : DailyFractal F}
    (hleft : Rises left cur ∨ Rises cur left) (hright : Rises cur right ∨ Rises right cur)
    (h : fractalAt index left cur right = some f) : Leads f (index + 1) cur right := by
  obtain ⟨-, hfall, rfl⟩ | ⟨-, hrise, rfl⟩ := fractalAt_cases hleft hright h
  · exact ⟨Nat.lt_succ_self index, .inr ⟨rfl, hfall, le_rfl⟩⟩
  · exact ⟨Nat.lt_succ_self index, .inl ⟨rfl, hrise, le_rfl⟩⟩

/-- The next fractal is a turn. A top is above the lowest point before it, because no kline is upside
down. -/
theorem Leads.turn {g f : DailyFractal F} {index : ℕ} {left cur right : MergedDailyKline F}
    (hg : Leads g index left cur) (hright : Rises cur right ∨ Rises right cur)
    (hcur : cur.low ≤ cur.high) (h : fractalAt index left cur right = some f) : Turn g f := by
  obtain ⟨hindex, ⟨htype, hrise, hprice⟩ | ⟨htype, hfall, hprice⟩⟩ := hg
  · obtain ⟨-, -, rfl⟩ | ⟨hfall, -, -⟩ := fractalAt_cases (.inl hrise) hright h
    · exact ⟨hindex, .inr ⟨htype, rfl, (hprice.trans_lt hrise.2).trans_le hcur⟩⟩
    · exact (hfall.1.asymm hrise.1).elim
  · obtain ⟨hrise, -, -⟩ | ⟨-, -, rfl⟩ := fractalAt_cases (.inr hfall) hright h
    · exact (hrise.1.asymm hfall.1).elim
    · exact ⟨hindex, .inl ⟨htype, rfl, hcur.trans_lt (hfall.1.trans_le hprice)⟩⟩

/-- Without a fractal the direction goes on. -/
theorem Leads.next {g : DailyFractal F} {index : ℕ} {left cur right : MergedDailyKline F}
    (hg : Leads g index left cur) (hright : Rises cur right ∨ Rises right cur)
    (h : fractalAt index left cur right = none) : Leads g (index + 1) cur right := by
  simp only [fractalAt] at h
  split at h
  · cases h
  rename_i htop
  split at h
  · cases h
  rename_i hbottom
  obtain ⟨hindex, ⟨htype, hrise, hprice⟩ | ⟨htype, hfall, hprice⟩⟩ := hg
  · refine ⟨hindex.trans (Nat.lt_succ_self index), .inl ⟨htype, hright.resolve_right ?_, ?_⟩⟩
    · exact fun hfall => htop ⟨hrise.1, hfall.1⟩
    · exact hprice.trans hrise.2.le
  · refine ⟨hindex.trans (Nat.lt_succ_self index), .inr ⟨htype, hright.resolve_left ?_, ?_⟩⟩
    · exact fun hrise => hbottom ⟨hfall.2, hrise.2⟩
    · exact hfall.1.le.trans hprice

/-- **The fractal invariant.** By induction on the klines, behind the last fractal if there is
one. -/
theorem turns_fractalsFrom (rest : List (MergedDailyKline F)) :
    ∀ (index : ℕ) (left cur : MergedDailyKline F) (last : Option (DailyFractal F)),
      (left :: cur :: rest).IsChain Separated → (∀ k ∈ left :: cur :: rest, k.low ≤ k.high) →
      (∀ g ∈ last, Leads g index left cur) →
      (last.toList ++ fractalsFrom index (left :: cur :: rest)).IsChain Turn := by
  induction rest with
  | nil =>
    intro index left cur last _ _ _
    cases last with
    | none => exact .nil
    | some g => exact .singleton g
  | cons right rest ih =>
    intro index left cur last hchain hordered hlast
    obtain ⟨hleft, hchain⟩ := List.isChain_cons_cons.1 hchain
    have hright := (List.isChain_cons_cons.1 hchain).1.rises_or
    obtain ⟨-, hordered⟩ := List.forall_mem_cons.1 hordered
    have hcur : cur.low ≤ cur.high := hordered cur (by simp)
    simp only [fractalsFrom]
    cases hf : fractalAt index left cur right with
    | none => exact ih _ _ _ last hchain hordered fun g hg => (hlast g hg).next hright hf
    | some f =>
      have hnext := ih (index + 1) cur right (some f) hchain hordered fun g hg => by
        obtain rfl : f = g := by simpa using hg
        exact leads_of_fractal hleft.rises_or hright hf
      cases last with
      | none => exact hnext
      | some g => exact .cons_cons ((hlast g rfl).turn hright hcur hf) hnext

theorem turns_findDailyFractals {merged : List (MergedDailyKline F)}
    (hchain : merged.IsChain Separated) (hordered : ∀ k ∈ merged, k.low ≤ k.high) :
    (findDailyFractals merged).IsChain Turn := by
  match merged with
  | [] => exact .nil
  | [_] => exact .nil
  | left :: cur :: rest =>
    exact turns_fractalsFrom rest 1 left cur none hchain hordered fun _ hg => nomatch hg

/-! ## Strokes -/

/-- A fractal is strictly on the far side of another in the direction of a stroke. -/
def StrokeDirection.Beyond : StrokeDirection → F → F → Prop
  | .up, start, stop => start < stop
  | .down, start, stop => stop < start

instance : (d : StrokeDirection) → (start stop : F) → Decidable (d.Beyond start stop)
  | .up, start, stop => inferInstanceAs (Decidable (start < stop))
  | .down, start, stop => inferInstanceAs (Decidable (stop < start))

/-- A stroke goes from a fractal to a later one, over four merged klines at least, and the price
moves in its direction. -/
def Sound (fs : List (DailyFractal F)) (x : DailyStroke F) : Prop :=
  ∃ a b, fs[x.startIdx]? = some a ∧ fs[x.endIdx]? = some b ∧ x.startPrice = a.price ∧
    x.endPrice = b.price ∧ a.index + 4 ≤ b.index ∧ x.direction.Beyond x.startPrice x.endPrice

/-- A stroke goes the other way from where the one before ended, or from later. -/
def Follows (x y : DailyStroke F) : Prop :=
  y.direction = x.direction.flip ∧ x.endIdx ≤ y.startIdx

/-- The loop has looked at the fractals up to position `j`, the last of them `g`. -/
structure Held (fs : List (DailyFractal F)) (s : StrokeState F) (j : ℕ) (g : DailyFractal F) :
    Prop where
  start : fs[s.startPos]? = some s.start
  reached : s.startPos ≤ j
  last : fs[j]? = some g
  direction : s.direction = s.start.fractalType.direction
  /-- A pending endpoint is the fractal looked at last. -/
  pending : ∀ stop ∈ s.stop, stop = (g, j) ∧ g.fractalType ≠ s.start.fractalType ∧
    s.start.index + 4 ≤ g.index ∧ s.direction.Beyond s.start.price g.price
  /-- The start is the most extreme of its type. -/
  extreme : g.fractalType = s.start.fractalType → ¬ s.direction.flip.Beyond s.start.price g.price

variable {fs : List (DailyFractal F)} {s : StrokeState F} {j : ℕ} {g f : DailyFractal F}

@[simp]
theorem StrokeDirection.flip_flip (d : StrokeDirection) : d.flip.flip = d := by
  cases d <;> rfl

/-- Two fractals of a turn have opposite types. -/
theorem Turn.direction (h : Turn g f) :
    f.fractalType.direction = g.fractalType.direction.flip := by
  obtain ⟨-, ⟨hg, hf, -⟩ | ⟨hg, hf, -⟩⟩ := h <;> rw [hg, hf] <;> rfl

/-- A type that differs from one end of a turn is the type of the other. -/
theorem Turn.type_eq (h : Turn g f) {t : FractalType} (ht : g.fractalType ≠ t) :
    f.fractalType = t := by
  obtain ⟨-, ⟨hg, hf, -⟩ | ⟨hg, hf, -⟩⟩ := h <;> rw [hg] at ht <;> rw [hf] <;> cases t <;>
    first | rfl | exact absurd rfl ht

/-- The far fractal of a turn lies beyond anything that the near one is not beyond of. -/
theorem Turn.beyond (h : Turn g f) {start : F}
    (hstart : ¬ g.fractalType.direction.flip.Beyond start g.price) :
    g.fractalType.direction.Beyond start f.price := by
  obtain ⟨-, ⟨hg, -, hprice⟩ | ⟨hg, -, hprice⟩⟩ := h <;> rw [hg] at hstart ⊢
  · exact hprice.trans_le (not_lt.1 hstart)
  · exact (not_lt.1 hstart).trans_lt hprice

/-- A same-type fractal moves the start exactly when it is more extreme. -/
theorem visit_same (hsame : f.fractalType = s.start.fractalType) :
    s.visit j f =
      if s.direction.flip.Beyond s.start.price f.price then { s with start := f, startPos := j }
      else s := by
  rw [StrokeState.visit, if_pos hsame]
  refine if_congr ?_ rfl rfl
  cases hdir : s.direction <;> simp [StrokeDirection.flip, StrokeDirection.Beyond]

/-- What closes a stroke is the pending endpoint. -/
theorem Held.closedBy (h : Held fs s j g) (hturn : Turn g f) : s.closedBy f = s.stop := by
  rw [StrokeState.closedBy]
  split
  · rfl
  · rename_i hother
    cases hstop : s.stop with
    | none => rfl
    | some stop =>
      obtain ⟨-, htype, -⟩ := h.pending stop hstop
      exact absurd (hturn.type_eq htype) hother

/-- The loop moves on to the next fractal while nothing is pending. -/
theorem Held.visit (h : Held fs s j g) (hidle : s.stop = none) (hturn : Turn g f)
    (hf : fs[j + 1]? = some f) : Held fs (s.visit (j + 1) f) (j + 1) f := by
  by_cases hsame : f.fractalType = s.start.fractalType
  · rw [visit_same hsame]
    split
    · -- the start moves
      refine ⟨hf, le_rfl, hf, ?_, fun stop hstop => ?_, fun _ => ?_⟩
      · rw [h.direction, hsame]
      · exact absurd hstop (by simp [hidle])
      · cases s.direction.flip <;> exact lt_irrefl _
    · rename_i hless
      refine ⟨h.start, h.reached.trans (Nat.le_succ j), hf, h.direction, fun stop hstop => ?_,
        fun _ => hless⟩
      exact absurd hstop (by simp [hidle])
  · have hg : g.fractalType = s.start.fractalType := by
      by_contra hne
      exact hsame (hturn.type_eq hne)
    have hbeyond : s.direction.Beyond s.start.price f.price := by
      rw [h.direction, ← hg]
      refine hturn.beyond ?_
      rw [hg, ← h.direction]
      exact h.extreme hg
    rw [StrokeState.visit, if_neg hsame]
    split
    · rename_i hgap
      refine ⟨h.start, h.reached.trans (Nat.le_succ j), hf, h.direction, fun stop hstop => ?_,
        fun hsame' => absurd hsame' hsame⟩
      obtain rfl : (f, j + 1) = stop := by simpa using hstop
      exact ⟨rfl, hsame, hgap, hbeyond⟩
    · refine ⟨h.start, h.reached.trans (Nat.le_succ j), hf, h.direction, fun stop hstop => ?_,
        fun hsame' => absurd hsame' hsame⟩
      exact absurd hstop (by simp [hidle])

/-- The stroke to a pending endpoint. -/
theorem Held.sound (h : Held fs s j g) {stop : DailyFractal F × ℕ} (hstop : s.stop = some stop) :
    Sound fs (s.stroke stop) := by
  obtain ⟨rfl, -, hgap, hbeyond⟩ := h.pending stop hstop
  exact ⟨s.start, g, h.start, h.last, rfl, rfl, hgap, hbeyond⟩

/-- After a stroke is closed, the next starts at its endpoint. -/
theorem Held.turn (h : Held fs s j g) {stop : DailyFractal F × ℕ} (hstop : s.stop = some stop) :
    Held fs (s.turn stop) j g := by
  obtain ⟨rfl, htype, -⟩ := h.pending stop hstop
  refine ⟨h.last, le_rfl, h.last, ?_, (fun _ hnone => nomatch hnone), fun _ => ?_⟩
  · change s.direction.flip = g.fractalType.direction
    rw [h.direction]
    cases hs : s.start.fractalType <;> cases hg : g.fractalType <;> simp_all <;> rfl
  · change ¬ s.direction.flip.flip.Beyond g.price g.price
    cases s.direction.flip.flip <;> exact lt_irrefl _

theorem visit_direction : (s.visit j f).direction = s.direction := by
  rw [StrokeState.visit]
  split
  · split <;> rfl
  · split <;> rfl

theorem startPos_le_visit (h : s.startPos ≤ j) : s.startPos ≤ (s.visit j f).startPos := by
  rw [StrokeState.visit]
  split
  · split
    · exact h
    · exact le_rfl
  · split <;> exact le_rfl

/-- **The stroke invariant.** By induction on the fractals that are left, behind the last stroke if
there is one. -/
theorem strokes_strokesFrom (rest : List (DailyFractal F)) :
    ∀ (s : StrokeState F) (j : ℕ) (g : DailyFractal F) (last : Option (DailyStroke F)),
      Held fs s j g → (g :: rest).IsChain Turn → fs.drop (j + 1) = rest →
      (∀ x ∈ last, s.direction = x.direction.flip ∧ x.endIdx ≤ s.startPos) →
      (last.toList ++ strokesFrom s (j + 1) rest).IsChain Follows ∧
        ∀ x ∈ strokesFrom s (j + 1) rest, Sound fs x := by
  induction rest with
  | nil =>
    intro s j g last h _ _ hlast
    simp only [strokesFrom]
    cases hstop : s.stop with
    | none =>
      cases last with
      | none => exact ⟨.nil, fun _ hx => nomatch hx⟩
      | some x => exact ⟨.singleton x, fun _ hx => nomatch hx⟩
    | some stop =>
      refine ⟨?_, fun x hx => ?_⟩
      · cases last with
        | none => exact .singleton _
        | some x => exact .cons_cons (hlast x rfl) (.singleton _)
      · obtain rfl : x = s.stroke stop := by simpa using hx
        exact h.sound hstop
  | cons f rest ih =>
    intro s j g last h hchain hdrop hlast
    obtain ⟨hturn, hchain⟩ := List.isChain_cons_cons.1 hchain
    have hf : fs[j + 1]? = some f := by
      rw [← List.head?_drop, hdrop]; rfl
    have hdrop' : fs.drop (j + 1 + 1) = rest := by
      rw [← List.tail_drop, hdrop]; rfl
    simp only [strokesFrom, h.closedBy hturn]
    cases hstop : s.stop with
    | none =>
      refine ih _ (j + 1) f last (h.visit hstop hturn hf) hchain hdrop' fun x hx => ?_
      rw [visit_direction]
      exact ⟨(hlast x hx).1, (hlast x hx).2.trans
        (startPos_le_visit (h.reached.trans (Nat.le_succ j)))⟩
    | some stop =>
      have hheld := (h.turn hstop).visit rfl hturn hf
      obtain ⟨hstrokes, hsound⟩ := ih _ (j + 1) f (some (s.stroke stop)) hheld hchain hdrop'
        fun x hx => by
          obtain rfl : s.stroke stop = x := by simpa using hx
          rw [visit_direction]
          exact ⟨rfl, startPos_le_visit ((h.turn hstop).reached.trans (Nat.le_succ j))⟩
      refine ⟨?_, List.forall_mem_cons.2 ⟨h.sound hstop, hsound⟩⟩
      cases last with
      | none => exact hstrokes
      | some x => exact .cons_cons (hlast x rfl) hstrokes

theorem strokes_findDailyStrokes {fs : List (DailyFractal F)} (hchain : fs.IsChain Turn) :
    (findDailyStrokes fs).IsChain Follows ∧ ∀ x ∈ findDailyStrokes fs, Sound fs x := by
  cases fs with
  | nil => exact ⟨.nil, fun _ hx => nomatch hx⟩
  | cons start rest =>
    refine strokes_strokesFrom rest _ 0 start none ?_ hchain rfl fun _ hx => nomatch hx
    refine ⟨rfl, le_rfl, rfl, rfl, (fun _ hnone => nomatch hnone), fun _ => ?_⟩
    cases start.fractalType.direction.flip <;> exact lt_irrefl _

/-! ## The pipeline -/

/-- The shape of what the three stages make of a series of klines. -/
structure PipelineShape (bars : List (Bar F)) : Prop where
  /-- The segments partition the klines in order. -/
  partition : ∃ parts, List.Forall₂ Covers (mergeDailyKlines bars) parts ∧ parts.flatten = bars
  ordered : ∀ k ∈ mergeDailyKlines bars, k.low ≤ k.high
  separated : (mergeDailyKlines bars).IsChain Separated
  fractals : (findDailyFractals (mergeDailyKlines bars)).IsChain
    fun a b => a.index < b.index ∧ a.fractalType ≠ b.fractalType
  strokes : (findDailyStrokes (findDailyFractals (mergeDailyKlines bars))).IsChain Follows
  sound : ∀ x ∈ findDailyStrokes (findDailyFractals (mergeDailyKlines bars)),
    Sound (findDailyFractals (mergeDailyKlines bars)) x

/-- **The pipeline has its shape**, whatever the klines, as long as none is upside down. -/
theorem pipeline_shape (bars : List (Bar F)) (hbars : ∀ bar ∈ bars, bar.low ≤ bar.high) :
    PipelineShape bars := by
  have hordered : ∀ k ∈ mergeDailyKlines bars, k.low ≤ k.high := by
    cases bars with
    | nil => exact fun _ hk => nomatch hk
    | cons bar bars =>
      obtain ⟨hbar, hrest⟩ := List.forall_mem_cons.1 hbars
      exact ordered_mergeFrom bars _ hbar hrest
  have hseparated : (mergeDailyKlines bars).IsChain Separated := by
    cases bars with
    | nil => exact .nil
    | cons bar bars => exact separated_mergeFrom bars [] (openSegment bar 0) (.singleton _)
  have hturns := turns_findDailyFractals hseparated hordered
  obtain ⟨hstrokes, hsound⟩ := strokes_findDailyStrokes hturns
  refine ⟨?_, hordered, hseparated, ?_, hstrokes, hsound⟩
  · cases bars with
    | nil => exact ⟨[], .nil, rfl⟩
    | cons bar bars => exact parts_mergeFrom bars _ [bar] (covers_open bar 0)
  · exact hturns.imp fun _ _ hturn => ⟨hturn.1, hturn.type_ne⟩

/-- Nine klines with a peak, a trough and a containment. -/
def zigzag : List (Bar ℤ) :=
  [⟨"01", 10, 8⟩, ⟨"02", 14, 12⟩, ⟨"03", 13, 12⟩, ⟨"04", 12, 9⟩, ⟨"05", 10, 7⟩, ⟨"06", 8, 5⟩,
    ⟨"07", 6, 3⟩, ⟨"08", 9, 6⟩, ⟨"09", 8, 5⟩]

theorem pipeline_shape_zigzag :
    PipelineShape zigzag ∧
      (findDailyStrokes (findDailyFractals (mergeDailyKlines zigzag))).map DailyStroke.direction =
        [.down] :=
  ⟨pipeline_shape zigzag (by decide), by decide⟩

end Astock.Chan
