import Astock.Spec.Clarify

/-!
# Clicking and typing

An entry of a printed question is chosen by its number or by its text.

* `interpretAnswer_number`: a number chooses its entry.
* `interpretAnswer_label`: when the label of an option chooses it, and `interpretAnswer_other`: when `Other...`
  asks for free text.
* `answers_agree_iff`: **both choose every entry** exactly if no label reads as something else.
-/

namespace Astock.Clarify

variable {request : ClarificationRequest} {option : ClarificationOption} {options : List ClarificationOption}
  {text folded : String} {i n : ℕ}

/-! ## Folding -/

theorem trim_trim (s : String) : Text.trim (Text.trim s) = Text.trim s := by
  refine String.toList_injective ?_
  rw [Text.toList_trim, Text.toList_trim]
  refine Lines.trim_eq_self (fun c hc => ?_) (fun c hc => ?_)
  · obtain ⟨rest, hrest⟩ := List.rdropWhile_prefix Text.isWhiteSpace (s.toList.dropWhile Text.isWhiteSpace)
    have hhead : (s.toList.dropWhile Text.isWhiteSpace).head? = some c := by
      rw [← hrest, List.head?_append]
      exact (congrArg (Option.or · rest.head?) hc).trans Option.some_or
    have hnot := List.head?_dropWhile_not Text.isWhiteSpace s.toList
    rw [hhead] at hnot
    exact Bool.eq_false_iff.1 hnot
  · have hne : Lines.trim Text.isWhiteSpace s.toList ≠ [] := List.ne_nil_of_mem (List.mem_of_getLast? hc)
    rw [← Option.some_injective _ ((List.getLast?_eq_some_getLast hne).symm.trans hc)]
    exact List.rdropWhile_last_not _ _ hne

theorem fold_trim (s : String) : fold (Text.trim s) = fold s := by
  unfold fold
  rw [trim_trim]

/-- A text that folds to something is not blank. -/
theorem trim_ne_empty (h : fold text ≠ "") : Text.trim text ≠ "" := by
  intro hblank
  refine h ?_
  unfold fold
  rw [hblank]
  decide

theorem trim_of_not_space (h : ∀ c ∈ text.toList, Text.isWhiteSpace c = false) : Text.trim text = text := by
  refine String.toList_injective ?_
  have hdrop : ∀ l : List Char, (∀ c ∈ l, Text.isWhiteSpace c = false) → l.dropWhile Text.isWhiteSpace = l := by
    intro l hl
    cases l with
    | nil => rfl
    | cons c l => rw [List.dropWhile_cons_of_neg (by simp [hl c List.mem_cons_self])]
  rw [Text.toList_trim, Lines.trim, hdrop _ h, List.rdropWhile, hdrop _ fun c hc => h c (List.mem_reverse.1 hc),
    List.reverse_reverse]

theorem splitWhitespace_of_not_space (hne : text ≠ "") (h : ∀ c ∈ text.toList, Text.isWhiteSpace c = false) :
    Text.splitWhitespace text = [text] := by
  have hlist : text.toList ≠ [] := fun hnil => hne (String.toList_injective hnil)
  unfold Text.splitWhitespace
  rw [List.splitOnP_eq_singleton h]
  simp [hlist]

/-! ## Numbers -/

theorem foldChar_digit {c : Char} (h : c.isDigit) : foldChar c = c ∧ Text.isWhiteSpace c = false := by
  have hall : ∀ k < 58, 48 ≤ k →
      foldChar (Char.ofNat k) = Char.ofNat k ∧ Text.isWhiteSpace (Char.ofNat k) = false := by decide
  have hrange := Char.isDigit_iff_toNat.1 h
  have hc := hall c.toNat (Nat.lt_succ_of_le hrange.2) hrange.1
  rwa [Char.ofNat_toNat] at hc

/-- Digits are their own folded text. -/
theorem fold_digits (hne : text ≠ "") (h : ∀ c ∈ text.toList, c.isDigit) : fold text = text := by
  have hspace : ∀ c ∈ text.toList, Text.isWhiteSpace c = false := fun c hc => (foldChar_digit (h c hc)).2
  have hmap : text.toList.map foldChar = text.toList := by
    conv_rhs => rw [← List.map_id text.toList]
    exact List.map_congr_left fun c hc => (foldChar_digit (h c hc)).1
  unfold fold
  rw [trim_of_not_space hspace, hmap, String.ofList_toList, splitWhitespace_of_not_space hne hspace]
  rfl

theorem parseUsize_digits {digits : List Char} (hne : digits ≠ []) (h : ∀ c ∈ digits, c.isDigit)
    (hlt : Nat.ofDigitChars 10 digits 0 < 2 ^ 64) : parseUsize digits = some (Nat.ofDigitChars 10 digits 0) := by
  have hplus : ∀ rest, digits ≠ '+' :: rest := by
    rintro rest rfl
    exact absurd (h '+' List.mem_cons_self) (by decide)
  have hvalid : digits ≠ [] ∧ digits.all Char.isDigit ∧ Nat.ofDigitChars 10 digits 0 < 2 ^ 64 :=
    ⟨hne, List.all_eq_true.2 h, hlt⟩
  have hunsigned : unsigned digits = digits := by
    unfold unsigned
    split
    · next rest => exact absurd rfl (hplus rest)
    · rfl
  unfold parseUsize
  rw [hunsigned]
  exact if_pos hvalid

/-- No prefix of free text starts with a digit. -/
theorem stripOtherPrefix_digits (hne : text ≠ "") (h : ∀ c ∈ text.toList, c.isDigit) :
    stripOtherPrefix text = none := by
  obtain ⟨c, rest, hcons⟩ : ∃ c rest, text.toList = c :: rest :=
    List.exists_cons_of_ne_nil fun hnil => hne (String.toList_injective hnil)
  have hdigit : c.isDigit := h c (by rw [hcons]; exact List.mem_cons_self)
  have hlower : c.toLower.isDigit := by
    have hall : ∀ k < 58, 48 ≤ k → (Char.ofNat k).toLower.isDigit := by decide
    have hrange := Char.isDigit_iff_toNat.1 hdigit
    have hc := hall c.toNat (Nat.lt_succ_of_le hrange.2) hrange.1
    rwa [Char.ofNat_toNat] at hc
  have hheads : ∀ opening ∈ otherPrefixes, opening.toList.head?.any (!·.isDigit) := by decide
  unfold stripOtherPrefix
  rw [Option.map_eq_none_iff, List.find?_eq_none]
  intro opening hmem hstarts
  have hhead := hheads opening hmem
  cases hopening : opening.toList with
  | nil =>
    rw [hopening] at hhead
    exact absurd hhead (by decide)
  | cons d ds =>
    rw [hopening, List.head?_cons, Option.any_some] at hhead
    rw [hcons, hopening, List.map_cons, List.isPrefixOf_cons_cons, Bool.and_eq_true, beq_iff_eq] at hstarts
    rw [hstarts.1, hlower] at hhead
    exact absurd hhead (by decide)

/-- **A number** chooses the entry that it stands before. -/
theorem interpretAnswer_number (request : ClarificationRequest) (hn : n + 1 < 2 ^ 64) :
    request.interpretAnswer (toString (n + 1)) = request.atPosition n := by
  have hlist : (toString (n + 1)).toList = Nat.toDigits 10 (n + 1) := Nat.toList_repr
  have hdigits : ∀ c ∈ (toString (n + 1)).toList, c.isDigit := by
    rw [hlist]
    exact fun c hc => Nat.isDigit_of_mem_toDigits (by decide) (by decide) hc
  have hnil : (toString (n + 1)).toList ≠ [] := by
    rw [hlist]
    exact Nat.toDigits_ne_nil
  have hne : toString (n + 1) ≠ "" := fun h => hnil (by rw [h]; rfl)
  have hspace : ∀ c ∈ (toString (n + 1)).toList, Text.isWhiteSpace c = false :=
    fun c hc => (foldChar_digit (hdigits c hc)).2
  have hparse : parseUsize (toString (n + 1)).toList = some (n + 1) := by
    have hvalue : Nat.ofDigitChars 10 (toString (n + 1)).toList 0 = n + 1 := by
      rw [hlist, Nat.ofDigitChars_ten_toDigits]
    rw [parseUsize_digits hnil hdigits (by rwa [hvalue]), hvalue]
  have hposition : positionalIndex (toString (n + 1)) = some n := by
    have hcompact : (toString (n + 1)).toList.filter (!Text.isWhiteSpace ·) = (toString (n + 1)).toList :=
      List.filter_eq_self.2 fun c hc => by rw [hspace c hc]; rfl
    unfold positionalIndex
    rw [hcompact]
    dsimp only
    rw [hparse]
    rfl
  unfold ClarificationRequest.interpretAnswer
  dsimp only
  rw [trim_of_not_space hspace, if_neg hne, stripOtherPrefix_digits hne hdigits]
  dsimp only
  rw [fold_digits hne hdigits, hposition]

/-! ## Labels -/

/-- The ids of a valid question are distinct. -/
theorem nodup_ids (h : request.validate = .ok ()) : (request.options.map (·.id)).Nodup := by
  have hunseen : ∀ options seen, ClarificationRequest.validate.unseen seen options = .ok () →
      (options.map (·.id)).Nodup ∧ ∀ option ∈ options, option.id ∉ seen := by
    intro options
    induction options with
    | nil => exact fun _ _ => ⟨.nil, fun _ h => absurd h List.not_mem_nil⟩
    | cons option options ih =>
      intro seen h
      unfold ClarificationRequest.validate.unseen at h
      split at h
      · exact absurd h (by simp)
      · next hnew =>
        obtain ⟨hnodup, hseen⟩ := ih _ h
        refine ⟨List.nodup_cons.2 ⟨fun hmem => ?_, hnodup⟩, fun other hother => ?_⟩
        · obtain ⟨other, hother, hid⟩ := List.mem_map.1 hmem
          exact hseen other hother (List.mem_append_right _ (by rw [hid]; exact List.mem_singleton_self _))
        · rcases List.mem_cons.1 hother with rfl | hother
          · exact hnew
          · exact fun hmem => hseen other hother (List.mem_append_left _ hmem)
  unfold ClarificationRequest.validate at h
  dsimp only at h
  split at h
  · exact absurd h (by simp)
  · split at h
    · exact absurd h (by simp)
    · split at h
      · exact absurd h (by simp)
      · exact (hunseen _ _ h).1

theorem eq_of_id {j : ℕ} {other : ClarificationOption} (hids : (options.map (·.id)).Nodup)
    (hi : options[i]? = some option) (hj : options[j]? = some other) (hid : other.id = option.id) : j = i := by
  have hi' : (options.map (·.id))[i]? = some option.id := by rw [List.getElem?_map, hi]; rfl
  have hj' : (options.map (·.id))[j]? = some option.id := by rw [List.getElem?_map, hj, ← hid]; rfl
  exact (List.getElem?_inj (List.getElem?_eq_some_iff.1 hj').1 hids).1 (hj'.trans hi'.symm)

/-- A position chooses the option that stands there. -/
theorem atPosition_eq_option {p : ℕ} (hids : (request.options.map (·.id)).Nodup)
    (hi : request.options[i]? = some option) : request.atPosition p = some (.option option.id) ↔ p = i := by
  constructor
  · intro h
    unfold ClarificationRequest.atPosition at h
    split at h
    · next other hother =>
      exact eq_of_id hids hi hother (by simpa using h)
    · split at h
      · exact absurd h (by simp)
      · split at h <;> exact absurd h (by simp)
  · rintro rfl
    unfold ClarificationRequest.atPosition
    rw [hi]

theorem mem_keyCandidates {candidate : ℕ × ClarificationOption} :
    candidate ∈ keyCandidates folded option ↔ ∃ key ∈ option.keys, fold key ≠ "" ∧
      Text.contains folded (fold key) ∧ candidate = ((fold key).length, option) := by
  unfold keyCandidates
  rw [List.mem_filterMap]
  refine exists_congr fun key => and_congr_right fun _ => ?_
  have hself : folded = fold key → Text.contains folded (fold key) = true := by
    intro h
    rw [← h, Text.contains_iff]
  split
  · next hempty => exact iff_of_false (by simp) fun h => h.1 hempty
  · next hne =>
    split
    · next hcontains =>
      have hin : Text.contains folded (fold key) = true := hcontains.elim hself id
      rw [Option.some_inj, eq_comm]
      exact ⟨fun h => ⟨hne, hin, h⟩, fun h => h.2.2⟩
    · next hnot => exact iff_of_false (by simp) fun h => hnot (.inr h.2.1)

/-- A key in a text is as long as the text only if it is the text. -/
theorem length_le_of_contains {key : String} (h : Text.contains folded key) :
    key.length ≤ folded.length ∧ (key.length = folded.length → key = folded) := by
  have hinside := Text.contains_iff.1 h
  refine ⟨hinside.length_le, fun heq => String.toList_injective (hinside.eq_of_length heq)⟩

/-- A label is read as itself: not as free text, as another position or as a delegation, and no later option
has it as a synonym. -/
structure LabelClear (options : List ClarificationOption) (i : ℕ) (label : String) : Prop where
  opening : stripOtherPrefix (Text.trim label) = none
  position : ∀ p, positionalIndex (fold label) = some p → p = i
  matched : positionalIndex (fold label) = none → containsAny (fold label) delegationPhrases = false ∧
    ∀ later ∈ options.drop (i + 1), ∀ synonym ∈ later.synonyms, fold synonym ≠ fold label

/-- The folded labels of a question are distinct and say something. -/
structure FoldedLabels (options : List ClarificationOption) : Prop where
  ne : ∀ option ∈ options, fold option.label ≠ ""
  nodup : (options.map (fold ·.label)).Nodup

theorem eq_append_of_getElem? (hi : options[i]? = some option) :
    options = options.take i ++ option :: options.drop (i + 1) := by
  obtain ⟨hlt, hget⟩ := List.getElem?_eq_some_iff.1 hi
  rw [← hget, List.cons_getElem_drop_succ, List.take_append_drop]

/-- No later option has the same label. -/
theorem label_of_later {later : ClarificationOption} (h : FoldedLabels options) (hi : options[i]? = some option)
    (hlater : later ∈ options.drop (i + 1)) : fold later.label ≠ fold option.label := by
  have hpair : options.Pairwise fun a b => fold a.label ≠ fold b.label := List.pairwise_map.1 h.nodup
  rw [eq_append_of_getElem? hi] at hpair
  exact ((List.pairwise_cons.1 (List.pairwise_append.1 hpair).2.1).1 later hlater).symm

theorem length_le_of_candidate {candidate : ℕ × ClarificationOption}
    (h : candidate ∈ options.flatMap (keyCandidates folded)) : candidate.1 ≤ folded.length := by
  obtain ⟨option, -, hmem⟩ := List.mem_flatMap.1 h
  obtain ⟨key, -, -, hcontains, rfl⟩ := mem_keyCandidates.1 hmem
  exact (length_le_of_contains hcontains).1

/-- The label is a candidate for itself. -/
theorem label_candidate (hne : fold option.label ≠ "") :
    ((fold option.label).length, option) ∈ keyCandidates (fold option.label) option :=
  mem_keyCandidates.2 ⟨option.label, List.mem_cons_self, hne, by rw [Text.contains_iff], rfl⟩

theorem candidates_split (folded : String) (hi : options[i]? = some option) :
    options.flatMap (keyCandidates folded) = ((options.take i).flatMap (keyCandidates folded) ++
      keyCandidates folded option) ++ (options.drop (i + 1)).flatMap (keyCandidates folded) := by
  conv_lhs => rw [eq_append_of_getElem? hi]
  rw [List.flatMap_append, List.flatMap_cons, List.append_assoc]

/-- A label that no later option has as a synonym chooses its option. -/
theorem longest_own (h : FoldedLabels options) (hi : options[i]? = some option)
    (hlater : ∀ later ∈ options.drop (i + 1), ∀ synonym ∈ later.synonyms, fold synonym ≠ fold option.label) :
    ∃ length, longest (options.flatMap (keyCandidates (fold option.label))) = some (length, option) := by
  have hown := label_candidate (h.ne option (List.mem_of_getElem? hi))
  have hafter : ∀ candidate ∈ (options.drop (i + 1)).flatMap (keyCandidates (fold option.label)),
      candidate.1 < (fold option.label).length := by
    intro candidate hmem
    refine (length_le_of_candidate hmem).lt_of_ne fun heq => ?_
    obtain ⟨later, hin, hcandidate⟩ := List.mem_flatMap.1 hmem
    obtain ⟨key, hkey, -, hcontains, rfl⟩ := mem_keyCandidates.1 hcandidate
    have hsame : fold key = fold option.label := (length_le_of_contains hcontains).2 heq
    rcases List.mem_cons.1 hkey with rfl | hsynonym
    · exact label_of_later h hi hin hsame
    · exact hlater later hin key hsynonym hsame
  obtain ⟨best, hbest, hpick⟩ := Best.pick_append_right Prod.fst hown fun candidate hmem =>
    length_le_of_candidate hmem
  obtain ⟨key, -, -, -, rfl⟩ := mem_keyCandidates.1 hbest
  refine ⟨(fold key).length, ?_⟩
  unfold longest
  rw [candidates_split _ hi]
  exact (Best.pick_append_left Prod.fst (List.mem_append_right _ hown) hafter).trans hpick

/-- A later option that has a label as a synonym takes it. -/
theorem longest_later {later : ClarificationOption} {synonym : String}
    (hne : fold option.label ≠ "") (hi : options[i]? = some option) (hlater : later ∈ options.drop (i + 1))
    (hsynonym : synonym ∈ later.synonyms) (hsame : fold synonym = fold option.label) :
    ∃ length, ∃ other ∈ options.drop (i + 1),
      longest (options.flatMap (keyCandidates (fold option.label))) = some (length, other) := by
  have hcandidate : ((fold option.label).length, later) ∈
      (options.drop (i + 1)).flatMap (keyCandidates (fold option.label)) := by
    refine List.mem_flatMap.2 ⟨later, hlater, mem_keyCandidates.2 ⟨synonym, List.mem_cons_of_mem _ hsynonym, ?_⟩⟩
    rw [hsame]
    exact ⟨hne, by rw [Text.contains_iff], rfl⟩
  obtain ⟨best, hbest, hpick⟩ := Best.pick_append_right Prod.fst hcandidate fun candidate hmem => by
    have hbefore : candidate ∈ (options.take i ++ [option]).flatMap (keyCandidates (fold option.label)) := by
      rw [List.flatMap_append, List.flatMap_singleton]
      exact hmem
    exact length_le_of_candidate hbefore
  obtain ⟨other, hother, hmem⟩ := List.mem_flatMap.1 hbest
  obtain ⟨key, -, -, -, rfl⟩ := mem_keyCandidates.1 hmem
  refine ⟨(fold key).length, other, hother, ?_⟩
  unfold longest
  rw [candidates_split _ hi]
  exact hpick

/-- The reply after trimming and folding. -/
theorem interpretAnswer_of_fold (hne : fold text ≠ "") (hopening : stripOtherPrefix (Text.trim text) = none) :
    request.interpretAnswer text = match positionalIndex (fold text) with
      | some position => request.atPosition position
      | none => request.matched (Text.trim text) (fold text) := by
  unfold ClarificationRequest.interpretAnswer
  cases hposition : positionalIndex (fold text) with
  | some position => simp only [if_neg (trim_ne_empty hne), hopening, fold_trim, hposition]
  | none => simp only [if_neg (trim_ne_empty hne), hopening, fold_trim, hposition]

theorem matched_label (hids : (request.options.map (·.id)).Nodup) (h : FoldedLabels request.options)
    (hi : request.options[i]? = some option) (raw : String) :
    request.matched raw (fold option.label) = some (.option option.id) ↔
      containsAny (fold option.label) delegationPhrases = false ∧
        ∀ later ∈ request.options.drop (i + 1), ∀ synonym ∈ later.synonyms, fold synonym ≠ fold option.label := by
  have hmem : option ∈ request.options := List.mem_of_getElem? hi
  unfold ClarificationRequest.matched
  cases hdelegation : containsAny (fold option.label) delegationPhrases with
  | true =>
    rw [if_pos rfl]
    refine iff_of_false ?_ (by simp)
    split <;> simp
  | false =>
    rw [if_neg (by simp)]
    by_cases hlater : ∀ later ∈ request.options.drop (i + 1), ∀ synonym ∈ later.synonyms,
        fold synonym ≠ fold option.label
    · obtain ⟨length, hlongest⟩ := longest_own h hi hlater
      rw [hlongest]
      exact iff_of_true rfl ⟨rfl, hlater⟩
    · have hnot := hlater
      push Not at hnot
      obtain ⟨later, hin, synonym, hsynonym, hsame⟩ := hnot
      obtain ⟨length, other, hother, hlongest⟩ := longest_later (h.ne option hmem) hi hin hsynonym hsame
      rw [hlongest]
      refine iff_of_false (fun heq => ?_) fun hboth => hlater hboth.2
      have hid : other.id = option.id := by simpa using heq
      obtain ⟨j, hj⟩ := List.mem_iff_getElem?.1 hother
      rw [List.getElem?_drop] at hj
      have := eq_of_id hids hi hj hid
      omega

/-- **The label of an option** chooses it exactly if it is read as itself. -/
theorem interpretAnswer_label (hids : (request.options.map (·.id)).Nodup) (h : FoldedLabels request.options)
    (hi : request.options[i]? = some option) :
    request.interpretAnswer option.label = some (.option option.id) ↔
      LabelClear request.options i option.label := by
  have hne := h.ne option (List.mem_of_getElem? hi)
  cases hopening : stripOtherPrefix (Text.trim option.label) with
  | some text =>
    refine iff_of_false ?_ fun hclear => absurd (hopening.symm.trans hclear.opening) (by simp)
    unfold ClarificationRequest.interpretAnswer
    dsimp only
    rw [if_neg (trim_ne_empty hne), hopening]
    dsimp only
    split
    · simp
    · split <;> simp
  | none =>
    rw [interpretAnswer_of_fold hne hopening]
    cases hposition : positionalIndex (fold option.label) with
    | some p =>
      dsimp only
      rw [atPosition_eq_option hids hi]
      constructor
      · rintro rfl
        exact ⟨hopening, fun q hq => (Option.some_injective _ (hposition.symm.trans hq)).symm,
          fun hnone => absurd (hposition.symm.trans hnone) (by simp)⟩
      · exact fun hclear => hclear.position p hposition
    | none =>
      dsimp only
      rw [matched_label hids h hi]
      exact ⟨fun hmatched => ⟨hopening, fun _ hq => absurd (hposition.symm.trans hq) (by simp), fun _ => hmatched⟩,
        fun hclear => hclear.matched hposition⟩

/-! ## The two other entries -/

theorem letAgentChoose_reads : fold "Let Agent choose" = "let agent choose" ∧
    stripOtherPrefix (Text.trim "Let Agent choose") = none ∧
      positionalIndex (fold "Let Agent choose") = none := by decide +kernel

/-- **`Let Agent choose`** delegates where it is offered. -/
theorem interpretAnswer_delegation (h : request.allowDelegation) :
    request.interpretAnswer "Let Agent choose" = some .delegated := by
  obtain ⟨hfold, hopening, hposition⟩ := letAgentChoose_reads
  have hphrase : containsAny "let agent choose" delegationPhrases = true := by
    refine List.any_eq_true.2 ⟨"let agent choose", by decide, ?_⟩
    rw [Text.contains_iff]
  rw [interpretAnswer_of_fold (by rw [hfold]; decide) hopening, hposition]
  dsimp only
  unfold ClarificationRequest.matched
  rw [hfold, if_pos hphrase, if_pos h]

theorem other_reads : fold "Other..." = "other..." ∧ stripOtherPrefix (Text.trim "Other...") = none ∧
    positionalIndex (fold "Other...") = none ∧ containsAny "other..." delegationPhrases = false ∧
      containsAny "other..." otherPhrases = true := by decide +kernel

/-- **`Other...`** asks for free text exactly if no option has a key in it. -/
theorem interpretAnswer_other (h : request.allowOther) :
    request.interpretAnswer "Other..." = some .otherRequested ↔
      ∀ option ∈ request.options, ∀ key ∈ option.keys, fold key ≠ "" → ¬ Text.contains "other..." (fold key) := by
  obtain ⟨hfold, hopening, hposition, hdelegation, hother⟩ := other_reads
  rw [interpretAnswer_of_fold (by rw [hfold]; decide) hopening, hposition]
  dsimp only
  unfold ClarificationRequest.matched
  rw [hfold, hdelegation, hother, if_neg (by simp), if_pos rfl, if_pos h]
  have hnone : longest (request.options.flatMap (keyCandidates "other...")) = none ↔
      ∀ option ∈ request.options, ∀ key ∈ option.keys, fold key ≠ "" → ¬ Text.contains "other..." (fold key) := by
    unfold longest
    rw [Best.pick_eq_none_iff, List.flatMap_eq_nil_iff]
    refine forall₂_congr fun option _ => ?_
    rw [List.eq_nil_iff_forall_not_mem]
    refine ⟨fun hnil key hkey hne hcontains => hnil _ (mem_keyCandidates.2 ⟨key, hkey, hne, hcontains, rfl⟩), ?_⟩
    intro hkeys candidate hcandidate
    obtain ⟨key, hkey, hne, hcontains, -⟩ := mem_keyCandidates.1 hcandidate
    exact hkeys key hkey hne hcontains
  rw [← hnone]
  cases longest (request.options.flatMap (keyCandidates "other...")) with
  | none => exact iff_of_true rfl rfl
  | some best => exact iff_of_false (by simp) (by simp)

/-! ## The printed list -/

/-- An entry of the printed list and what it stands for. -/
structure Entry where
  position : ℕ
  text : String
  answer : ClarificationAnswer

def entries (request : ClarificationRequest) : List Entry :=
  request.options.mapIdx (fun index option => ⟨index, option.label, .option option.id⟩) ++
    (request.delegationPosition.map (⟨·, "Let Agent choose", .delegated⟩)).toList ++
      (request.otherPosition.map (⟨·, "Other...", .otherRequested⟩)).toList

theorem mem_entries {entry : Entry} : entry ∈ entries request ↔
    (∃ i option, request.options[i]? = some option ∧ entry = ⟨i, option.label, .option option.id⟩) ∨
      (∃ position, request.delegationPosition = some position ∧
        entry = ⟨position, "Let Agent choose", .delegated⟩) ∨
      ∃ position, request.otherPosition = some position ∧ entry = ⟨position, "Other...", .otherRequested⟩ := by
  unfold entries
  rw [List.mem_append, List.mem_append, or_assoc, List.mem_mapIdx]
  refine or_congr ⟨?_, ?_⟩ (or_congr ?_ ?_)
  · rintro ⟨i, hi, rfl⟩
    exact ⟨i, request.options[i], List.getElem?_eq_getElem hi, rfl⟩
  · rintro ⟨i, option, hi, rfl⟩
    obtain ⟨hlt, hget⟩ := List.getElem?_eq_some_iff.1 hi
    exact ⟨i, hlt, by rw [hget]⟩
  · cases request.delegationPosition <;> simp
  · cases request.otherPosition <;> simp

/-- Each entry is printed with its number and its text. -/
theorem entry_rendered {entry : Entry} (h : entry ∈ entries request) : ∃ line ∈ request.renderLines,
    (ClarificationRequest.entryLine entry.position entry.text).toList <+: line.toList := by
  unfold ClarificationRequest.renderLines
  rcases mem_entries.1 h with ⟨i, option, hi, rfl⟩ | ⟨position, hposition, rfl⟩ | ⟨position, hposition, rfl⟩
  · obtain ⟨hlt, hget⟩ := List.getElem?_eq_some_iff.1 hi
    refine ⟨_, List.mem_append_left _ (List.mem_append_left _ (List.mem_cons_of_mem _ (List.mem_cons_of_mem _
      (List.mem_flatten.2 ⟨_, List.mem_mapIdx.2 ⟨i, hlt, rfl⟩, List.mem_cons_self⟩)))), ?_⟩
    rw [hget, String.toList_append]
    exact List.prefix_append _ _
  · refine ⟨_, List.mem_append_left _ (List.mem_append_right _ ?_), List.prefix_rfl⟩
    rw [hposition]
    exact List.mem_singleton_self _
  · refine ⟨_, List.mem_append_right _ ?_, List.prefix_rfl⟩
    rw [hposition]
    exact List.mem_singleton_self _

theorem position_entry {entry : Entry} (h : entry ∈ entries request) :
    entry.position + 1 < 2 ^ 64 ∧ request.atPosition entry.position = some entry.answer := by
  have hlength := request.length_lt
  have hnone : ∀ {p}, request.options.length ≤ p → request.options[p]? = none := List.getElem?_eq_none
  rcases mem_entries.1 h with ⟨i, option, hi, rfl⟩ | ⟨position, hposition, rfl⟩ | ⟨position, hposition, rfl⟩
  · have hlt : i < request.options.length := (List.getElem?_eq_some_iff.1 hi).1
    refine ⟨by show i + 1 < 2 ^ 64; omega, ?_⟩
    unfold ClarificationRequest.atPosition
    rw [hi]
  · have hat : position = request.options.length := by
      unfold ClarificationRequest.delegationPosition at hposition
      split at hposition
      · exact (Option.some_injective _ hposition).symm
      · exact absurd hposition (by simp)
    refine ⟨by show position + 1 < 2 ^ 64; omega, ?_⟩
    unfold ClarificationRequest.atPosition
    rw [hnone hat.ge]
    exact if_pos hposition.symm
  · have hat : position = request.options.length + if request.allowDelegation then 1 else 0 := by
      unfold ClarificationRequest.otherPosition at hposition
      split at hposition
      · exact (Option.some_injective _ hposition).symm
      · exact absurd hposition (by simp)
    have hother : some position ≠ request.delegationPosition := by
      unfold ClarificationRequest.delegationPosition
      rw [hat]
      split <;> simp
    refine ⟨by show position + 1 < 2 ^ 64; split at hat <;> omega, ?_⟩
    unfold ClarificationRequest.atPosition
    rw [hnone (show request.options.length ≤ position by omega)]
    dsimp only
    rw [if_neg hother]
    exact if_pos hposition.symm

/-- No label is read as something else, and `Other...` as no option. -/
structure Unambiguous (request : ClarificationRequest) : Prop where
  label : ∀ i option, request.options[i]? = some option → LabelClear request.options i option.label
  other : request.allowOther → ∀ option ∈ request.options, ∀ key ∈ option.keys, fold key ≠ "" →
    ¬ Text.contains "other..." (fold key)

/-- **Clicking and typing select the same answer**, for every entry of a valid question, exactly if its
texts are unambiguous. -/
theorem answers_agree_iff (request : ClarificationRequest) (hvalid : request.validate = .ok ())
    (hlabels : FoldedLabels request.options) :
    (∀ entry ∈ entries request,
      request.interpretAnswer (toString (entry.position + 1)) = some entry.answer ∧
        request.interpretAnswer entry.text = some entry.answer) ↔ Unambiguous request := by
  have hids := nodup_ids hvalid
  constructor
  · intro h
    constructor
    case label =>
      intro i option hi
      have hentry := h _ (mem_entries.2 (.inl ⟨i, option, hi, rfl⟩))
      exact (interpretAnswer_label hids hlabels hi).1 hentry.2
    case other =>
      intro hallow
      have hposition : request.otherPosition =
          some (request.options.length + if request.allowDelegation then 1 else 0) := if_pos hallow
      have hentry := h _ (mem_entries.2 (.inr (.inr ⟨_, hposition, rfl⟩)))
      exact (interpretAnswer_other hallow).1 hentry.2
  · intro h entry hentry
    obtain ⟨hlt, hposition⟩ := position_entry hentry
    refine ⟨(interpretAnswer_number request hlt).trans hposition, ?_⟩
    rcases mem_entries.1 hentry with ⟨i, option, hi, rfl⟩ | ⟨position, hsome, rfl⟩ | ⟨position, hsome, rfl⟩
    · exact (interpretAnswer_label hids hlabels hi).2 (h.label i option hi)
    · refine interpretAnswer_delegation ?_
      unfold ClarificationRequest.delegationPosition at hsome
      split at hsome
      · assumption
      · exact absurd hsome (by simp)
    · have hallow : request.allowOther := by
        unfold ClarificationRequest.otherPosition at hsome
        split at hsome
        · assumption
        · exact absurd hsome (by simp)
      exact (interpretAnswer_other hallow).2 (h.other hallow)

/-- A question with two labels. -/
def question (first second : String) : ClarificationRequest where
  id := "period"
  question := "哪个周期？"
  options := [⟨"first", first, none, [], false⟩, ⟨"second", second, none, [], false⟩]
  allowDelegation := true
  allowOther := true
  recommendationReason := none
  length_lt := by simp

/-- A question about the horizon. -/
theorem horizon_answers : FoldedLabels (question "short" "long").options ∧
    ∀ entry ∈ entries (question "short" "long"),
      (question "short" "long").interpretAnswer (toString (entry.position + 1)) = some entry.answer ∧
        (question "short" "long").interpretAnswer entry.text = some entry.answer := by
  have hlabels : FoldedLabels (question "short" "long").options := ⟨by decide +kernel, by decide +kernel⟩
  refine ⟨hlabels, (answers_agree_iff (question "short" "long") rfl hlabels).2 ?_⟩
  have hclear : ∀ label ∈ ["short", "long"], stripOtherPrefix (Text.trim label) = none ∧
      positionalIndex (fold label) = none ∧ containsAny (fold label) delegationPhrases = false ∧
        ¬ Text.contains "other..." (fold label) := by decide +kernel
  constructor
  case label =>
    intro i option hi
    have hmem : option ∈ (question "short" "long").options := List.mem_of_getElem? hi
    obtain ⟨hopening, hposition, hdelegation, -⟩ := hclear option.label (by
      rcases List.mem_cons.1 hmem with rfl | hmem
      · decide
      · rw [List.mem_singleton.1 hmem]
        decide)
    refine ⟨hopening, fun p hp => absurd (hposition.symm.trans hp) (by simp), fun _ => ⟨hdelegation, ?_⟩⟩
    intro later hlater
    have hplain : ∀ later ∈ (question "short" "long").options, later.synonyms = [] := by decide
    rw [hplain later (List.mem_of_mem_drop hlater)]
    exact fun synonym hsynonym => absurd hsynonym List.not_mem_nil
  case other =>
    intro _ option hmem key hkey _
    have hkeys : ∀ option ∈ (question "short" "long").options, ∀ key ∈ option.keys, key ∈ ["short", "long"] := by
      decide
    exact (hclear key (hkeys option hmem key hkey)).2.2.2

/-- The second quarter is offered before the first: its label selects the other one. -/
theorem ordinal_label_taken : ¬ ∀ request : ClarificationRequest, request.validate = .ok () →
    FoldedLabels request.options → ∀ entry ∈ entries request,
      request.interpretAnswer (toString (entry.position + 1)) = some entry.answer ∧
        request.interpretAnswer entry.text = some entry.answer := by
  intro h
  have hentry := (h (question "第二季度" "第一季度") rfl ⟨by decide +kernel, by decide +kernel⟩
    ⟨0, "第二季度", .option "first"⟩ List.mem_cons_self).2
  have hread : (question "第二季度" "第一季度").interpretAnswer "第二季度" = some (.option "second") := by
    decide +kernel
  exact absurd (hread.symm.trans hentry) (by decide)

end Astock.Clarify
