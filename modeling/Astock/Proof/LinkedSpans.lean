import Astock.Proof.RelatedListed

/-!
# Where a text mentions an entity

Names are looked for in the lower-cased text, and the places found there are taken for places of the text. Of
matches that overlap, one pass in the order of their starts keeps the longer ones.

* `kernel_kept`: the matches that are kept are those that stand when a longer match blocks those that start no
  earlier.
* `links_stand`: **the text is linked at exactly these matches**, each to an entity that has a name there, and
  an agent may use only links that reach the threshold without a model.
-/

namespace Astock.Linking

variable {F : Type} {unicode : Unicode} {index base : EntityIndex F}
  {text haystack needle mention : String} {place other : Place} {found : List SpanMatches} {row : SpanMatches}
  {indexed : IndexedName}

/-! ## Bytes -/

theorem dropBytes_append (a b : List Char) : Text.dropBytes (byteLength a) (a ++ b) = some b := by
  induction a with
  | nil => cases b <;> rfl
  | cons c a ih =>
    have hpos : 0 < c.utf8Size := Char.utf8Size_pos c
    obtain ⟨n, hn⟩ : ∃ n, byteLength (c :: a) = n + 1 := ⟨_, (Nat.succ_pred_eq_of_pos (Nat.add_pos_left hpos _)).symm⟩
    have hsum : byteLength (c :: a) = c.utf8Size + byteLength a := rfl
    rw [hn, List.cons_append, Text.dropBytes, if_pos (by omega)]
    have hrest : n + 1 - c.utf8Size = byteLength a := by omega
    rw [hrest, ih]

theorem takeBytes_append (a b : List Char) : Text.takeBytes (byteLength a) (a ++ b) = some a := by
  induction a with
  | nil => cases b <;> rfl
  | cons c a ih =>
    have hpos : 0 < c.utf8Size := Char.utf8Size_pos c
    obtain ⟨n, hn⟩ : ∃ n, byteLength (c :: a) = n + 1 := ⟨_, (Nat.succ_pred_eq_of_pos (Nat.add_pos_left hpos _)).symm⟩
    have hsum : byteLength (c :: a) = c.utf8Size + byteLength a := rfl
    rw [hn, List.cons_append, Text.takeBytes, if_pos (by omega)]
    have hrest : n + 1 - c.utf8Size = byteLength a := by omega
    rw [hrest, ih]
    rfl

/-- A needle stands at the places where it is found. -/
theorem mem_matchIndices {word cs : List Char} {i at' skip : ℕ} (h : i ∈ Text.matchIndices word at' skip cs) :
    ∃ j, i = at' + j ∧ word <+: cs.drop j := by
  induction cs generalizing at' skip with
  | nil => cases skip <;> exact absurd h List.not_mem_nil
  | cons c cs ih =>
    have hnext : ∀ {skip}, i ∈ Text.matchIndices word (at' + 1) skip cs →
        ∃ j, i = at' + j ∧ word <+: (c :: cs).drop j := by
      intro skip hmem
      obtain ⟨j, hj, hword⟩ := ih hmem
      exact ⟨j + 1, by omega, hword⟩
    cases skip with
    | succ skip => exact hnext h
    | zero =>
      rw [Text.matchIndices] at h
      split at h
      · next hstarts =>
        rcases List.mem_cons.1 h with rfl | h
        · exact ⟨0, rfl, List.isPrefixOf_iff_prefix.1 hstarts⟩
        · exact hnext h
      · exact hnext h

theorem slice_occurrence (h : place ∈ occurrences haystack needle) :
    Text.slice haystack place.start place.stop = some needle := by
  obtain ⟨i, hi, rfl⟩ := List.mem_map.1 h
  obtain ⟨j, hj, rest, hrest⟩ := mem_matchIndices hi
  have hsame : i = j := by omega
  have hdrop := dropBytes_append (haystack.toList.take i) (haystack.toList.drop i)
  rw [List.take_append_drop] at hdrop
  unfold Text.slice
  dsimp only
  rw [if_pos (Nat.le_add_right _ _), hdrop, Option.bind_some, Nat.add_sub_cancel_left, hsame, ← hrest,
    takeBytes_append]
  exact congrArg some String.ofList_toList

theorem occurrence_lt (hne : needle ≠ "") (h : place ∈ occurrences haystack needle) : place.start < place.stop := by
  obtain ⟨i, -, rfl⟩ := List.mem_map.1 h
  have hpos : 0 < byteLength needle.toList := by
    cases hlist : needle.toList with
    | nil => exact absurd (String.toList_injective hlist) hne
    | cons c cs => exact Nat.add_pos_left (Char.utf8Size_pos c) _
  exact Nat.lt_add_of_pos_right hpos

/-! ## The index -/

/-- Names say something, and belong to entities. -/
theorem mem_names_rebuild (h : indexed ∈ (rebuildNames unicode base).names) :
    unicode.lower indexed.name.text ≠ "" ∧
      ∃ entity, Table.find ResearchEntity.entityId indexed.entityId (rebuildNames unicode base).entities =
        some entity := by
  unfold rebuildNames at h
  dsimp only at h
  rw [List.mem_insertionSort] at h
  obtain ⟨entity, hentity, hindexed⟩ := List.mem_flatMap.1 h
  obtain ⟨name, -, hname⟩ := List.mem_filterMap.1 hindexed
  split at hname
  · exact absurd hname (by simp)
  · next hnormal =>
    obtain rfl := Option.some_injective _ hname
    refine ⟨unicode.lower_ne _ fun hblank => hnormal ?_, ?_⟩
    · unfold normalizeName
      rw [hblank]
      rfl
    · refine Option.ne_none_iff_exists'.1 fun hnone => ?_
      exact (Table.find_eq_none _).1 hnone entity hentity rfl

/-! ## Matches -/

/-- A name is found at a place, with a mention. -/
structure NamedAt (unicode : Unicode) (index : EntityIndex F) (text : String) (place : Place) (mention : String)
    (indexed : IndexedName) : Prop where
  mem : indexed ∈ index.names
  looked : skipped unicode index (unicode.lower text) indexed = false
  occurs : place ∈ occurrences (unicode.lower text) (unicode.lower indexed.name.text)
  mention_eq : mention = mentionAt text place (unicode.lower indexed.name.text)

/-- The places at which names are found. -/
def matchedPlaces (unicode : Unicode) (index : EntityIndex F) (text : String) : List Place :=
  index.names.flatMap fun indexed =>
    if skipped unicode index (unicode.lower text) indexed then []
    else occurrences (unicode.lower text) (unicode.lower indexed.name.text)

theorem spanKey_inj {place' : Place} {mention' : String} (h : spanKey place mention = spanKey place' mention') :
    place = place' ∧ mention = mention' := by
  obtain ⟨hstart, hrest⟩ := Prod.mk.inj (toLex_inj.1 h)
  obtain ⟨hstop, hmention⟩ := Prod.mk.inj (toLex_inj.1 hrest)
  exact ⟨by cases place; cases place'; simp_all, hmention⟩

/-- Every row has names, and they are found at its place. -/
def RowsNamed (unicode : Unicode) (index : EntityIndex F) (text : String) (found : List SpanMatches) : Prop :=
  ∀ row ∈ found, row.names ≠ [] ∧ ∀ indexed ∈ row.names, NamedAt unicode index text row.place row.mention indexed

theorem rowsNamed_addMatch (h : RowsNamed unicode index text found)
    (hnamed : NamedAt unicode index text place mention indexed) :
    RowsNamed unicode index text (addMatch found place mention indexed) := by
  unfold addMatch
  dsimp only
  split
  · next old hold =>
    have hkey := Table.key_of_find hold
    obtain ⟨hplace, hmention⟩ := spanKey_inj hkey
    intro row hrow
    rcases Table.mem_insertOrdered.1 hrow with rfl | ⟨hrow, -⟩
    · refine ⟨List.append_ne_nil_of_right_ne_nil _ (List.cons_ne_nil _ _), fun indexed' hmem => ?_⟩
      rcases List.mem_append.1 hmem with hmem | hmem
      · exact (h old (Table.mem_of_find hold)).2 indexed' hmem
      · rw [List.mem_singleton.1 hmem]
        show NamedAt unicode index text old.place old.mention indexed
        rwa [hplace, hmention]
    · exact h row hrow
  · intro row hrow
    rcases Table.mem_insertOrdered.1 hrow with rfl | ⟨hrow, -⟩
    · exact ⟨List.cons_ne_nil _ _, fun indexed' hmem => by rwa [List.mem_singleton.1 hmem]⟩
    · exact h row hrow

theorem places_addMatch : other ∈ (addMatch found place mention indexed).map (·.place) ↔
    other = place ∨ other ∈ found.map (·.place) := by
  have hinsert : ∀ new : SpanMatches, spanKey new.place new.mention = spanKey place mention →
      (other ∈ (Table.insertOrdered (fun row : SpanMatches => spanKey row.place row.mention) new found).map
        (·.place) ↔ other = place ∨ other ∈ found.map (·.place)) := by
    intro new hkey
    obtain ⟨hplace, -⟩ := spanKey_inj hkey
    rw [List.mem_map, List.mem_map]
    constructor
    · rintro ⟨row, hrow, rfl⟩
      rcases Table.mem_insertOrdered.1 hrow with rfl | ⟨hrow, -⟩
      · exact .inl hplace
      · exact .inr ⟨row, hrow, rfl⟩
    · rintro (rfl | ⟨row, hrow, rfl⟩)
      · exact ⟨new, Table.mem_insertOrdered.2 (.inl rfl), hplace⟩
      · by_cases hsame : spanKey row.place row.mention = spanKey new.place new.mention
        · exact ⟨new, Table.mem_insertOrdered.2 (.inl rfl), (spanKey_inj hsame).1.symm⟩
        · exact ⟨row, Table.mem_insertOrdered.2 (.inr ⟨hrow, hsame⟩), rfl⟩
  unfold addMatch
  dsimp only
  split
  · next old hold =>
    have hkey := Table.key_of_find hold
    exact hinsert { old with names := old.names ++ [indexed] } hkey
  · exact hinsert _ rfl

/-- The rows that the occurrences of a name make. -/
theorem rowsNamed_foldl (mentionOf : Place → String) {places : List Place}
    (h : RowsNamed unicode index text found)
    (hnamed : ∀ place ∈ places, NamedAt unicode index text place (mentionOf place) indexed) :
    RowsNamed unicode index text
      (places.foldl (fun found place => addMatch found place (mentionOf place) indexed) found) := by
  induction places generalizing found with
  | nil => exact h
  | cons place places ih =>
    exact ih (rowsNamed_addMatch h (hnamed place List.mem_cons_self)) fun place' hmem =>
      hnamed place' (List.mem_cons_of_mem _ hmem)

theorem places_foldl (mentionOf : Place → String) (places : List Place) (found : List SpanMatches) :
    other ∈ (places.foldl (fun found place => addMatch found place (mentionOf place) indexed) found).map
      (·.place) ↔ other ∈ found.map (·.place) ∨ other ∈ places := by
  induction places generalizing found with
  | nil => simp
  | cons place places ih =>
    rw [List.foldl_cons, ih, places_addMatch, List.mem_cons]
    tauto

theorem foundSpans_spec (unicode : Unicode) (index : EntityIndex F) (text : String) :
    RowsNamed unicode index text (foundSpans unicode index text) ∧
      ∀ other, other ∈ (foundSpans unicode index text).map (·.place) ↔ other ∈ matchedPlaces unicode index text := by
  have hrun : ∀ names, names ⊆ index.names → ∀ found, RowsNamed unicode index text found →
      RowsNamed unicode index text (names.foldl (fun found indexed =>
        if skipped unicode index (unicode.lower text) indexed then found
        else (occurrences (unicode.lower text) (unicode.lower indexed.name.text)).foldl (fun found place =>
          addMatch found place (mentionAt text place (unicode.lower indexed.name.text)) indexed) found) found) ∧
      ∀ other, other ∈ (names.foldl (fun found indexed =>
        if skipped unicode index (unicode.lower text) indexed then found
        else (occurrences (unicode.lower text) (unicode.lower indexed.name.text)).foldl (fun found place =>
          addMatch found place (mentionAt text place (unicode.lower indexed.name.text)) indexed) found) found).map
            (·.place) ↔
        other ∈ found.map (·.place) ∨ other ∈ names.flatMap fun indexed =>
          if skipped unicode index (unicode.lower text) indexed then []
          else occurrences (unicode.lower text) (unicode.lower indexed.name.text) := by
    intro names
    induction names with
    | nil => exact fun _ found h => ⟨h, fun other => by simp⟩
    | cons indexed names ih =>
      intro hsub found h
      rw [List.foldl_cons, List.flatMap_cons]
      have hrest := ih fun name hname => hsub (List.mem_cons_of_mem _ hname)
      cases hskip : skipped unicode index (unicode.lower text) indexed with
      | true =>
        rw [if_pos rfl, if_pos rfl, List.nil_append]
        exact hrest found h
      | false =>
        rw [if_neg (by simp), if_neg (by simp)]
        have hnamed : ∀ place ∈ occurrences (unicode.lower text) (unicode.lower indexed.name.text),
            NamedAt unicode index text place (mentionAt text place (unicode.lower indexed.name.text)) indexed :=
          fun place hplace => ⟨hsub List.mem_cons_self, hskip, hplace, rfl⟩
        obtain ⟨hrows, hplaces⟩ := hrest _ (rowsNamed_foldl _ h hnamed)
        refine ⟨hrows, fun other => ?_⟩
        rw [hplaces, places_foldl, List.mem_append, or_assoc]
  obtain ⟨hrows, hplaces⟩ := hrun index.names (List.Subset.refl _) [] fun _ h => absurd h List.not_mem_nil
  refine ⟨hrows, fun other => (hplaces other).trans ?_⟩
  rw [List.map_nil, or_iff_right List.not_mem_nil]
  rfl

/-! ## The places that stand -/

/-- A longer match that starts no later. -/
def Place.Blocks (existing row : Place) : Prop := existing.start ≤ row.start ∧ existing.covers row

instance : DecidableRel Place.Blocks := fun _ _ => inferInstanceAs (Decidable (_ ∧ _))

/-- **The matches that are kept stand.** -/
theorem kernel_kept (unicode : Unicode) (index : EntityIndex F) (text : String) :
    Kernel.IsKernel Place.Blocks (matchedPlaces unicode index text)
      (· ∈ (keptSpans unicode index text).map (·.place)) := by
  let before : SpanMatches → SpanMatches → Prop := fun left right =>
    left.place.start < right.place.start ∨
      left.place.start = right.place.start ∧ right.place.length ≤ left.place.length
  let sorted := (foundSpans unicode index text).insertionSort before
  have htotal : Std.Total before := ⟨fun a b => by
    show (_ ∨ _ ∧ _) ∨ _ ∨ _ ∧ _
    omega⟩
  have htrans : IsTrans SpanMatches before := ⟨fun a b c hab hbc => by
    change _ ∨ _ ∧ _ at hab hbc
    show _ ∨ _ ∧ _
    omega⟩
  have hsorted : (sorted.map (·.place)).Pairwise fun a b =>
      a.start < b.start ∨ a.start = b.start ∧ b.length ≤ a.length :=
    List.pairwise_map.2 (List.pairwise_insertionSort before _)
  have hkept : (keptSpans unicode index text).map (·.place) =
      Kernel.pass Place.Blocks (sorted.map (·.place)) := by
    have hmap : (keptSpans unicode index text).map (·.place) =
        Kernel.pass Place.covers (sorted.map (·.place)) := Kernel.map_pass SpanMatches.place (fun _ _ => Iff.rfl) sorted
    refine hmap.trans (Kernel.pass_congr ?_)
    refine hsorted.imp fun hbefore => ?_
    unfold Place.Blocks
    exact (and_iff_right (by omega)).symm
  rw [hkept]
  have hmem : ∀ place, place ∈ sorted.map (·.place) ↔ place ∈ matchedPlaces unicode index text := by
    intro place
    rw [← (foundSpans_spec unicode index text).2 place, List.mem_map, List.mem_map]
    exact exists_congr fun row => and_congr_left fun _ => List.mem_insertionSort before
  refine (Kernel.IsKernel.congr hmem).1 (Kernel.isKernel_pass (fun place _ hself => ?_) ?_)
  · exact absurd hself.2.2.2 (Nat.lt_irrefl _)
  · refine hsorted.imp fun hbefore hblocks => ?_
    have hlength := hblocks.2.2.2
    have hstart := hblocks.1
    omega

theorem kernel_unique {K K' : Place → Prop} {l : List Place} (hK : Kernel.IsKernel Place.Blocks l K)
    (hK' : Kernel.IsKernel Place.Blocks l K') : K = K' := by
  refine hK.unique (fun place => (l.map Place.length).sum - place.length) (fun a ha b _ hblocks => ?_) hK'
  have hlength : b.length < a.length := hblocks.2.2.2
  have hbound : a.length ≤ (l.map Place.length).sum := List.le_sum_of_mem (List.mem_map_of_mem ha)
  show _ - a.length < _ - b.length
  omega

/-! ## Links -/

def DocumentEntityLink.span (link : DocumentEntityLink F) : Place := ⟨link.spanStart, link.spanEnd⟩

section

variable [ScoreFloat F] (digest : String → String) (revisionId : String) (eventTime : Option ℤ)
  (config : LinkerConfig F) (proposedByModel : Bool)

/-- Every candidate is an entity with one of the names. -/
theorem mem_candidatesOf {names : List IndexedName} {candidate : LinkCandidate F}
    (h : candidate ∈ candidatesOf unicode index text eventTime config names) :
    ∃ indexed ∈ names, indexed.entityId = candidate.entityId := by
  unfold candidatesOf at h
  dsimp only at h
  rw [List.mem_insertionSort] at h
  obtain ⟨indexed, hmem, hcandidate⟩ := List.mem_filterMap.1 h
  obtain ⟨entity, hentity, rfl⟩ := Option.map_eq_some_iff.1 hcandidate
  refine ⟨indexed, ?_, (Table.key_of_find hentity).symm⟩
  have hnew : ∀ (rest rows : List IndexedName), indexed ∈ rest.foldl (orInsert IndexedName.entityId) rows →
      indexed ∈ rest ∨ indexed ∈ rows := by
    intro rest
    induction rest with
    | nil => exact fun rows h => .inr h
    | cons row rest ih =>
      intro rows h
      rcases ih _ h with h | h
      · exact .inl (List.mem_cons_of_mem _ h)
      · unfold orInsert at h
        split at h
        · exact .inr h
        · rcases Table.mem_insertOrdered.1 h with rfl | ⟨h, -⟩
          · exact .inl List.mem_cons_self
          · exact .inr h
  rcases hnew names [] hmem with h | h
  · exact h
  · exact absurd h List.not_mem_nil

theorem candidatesOf_ne_nil {names : List IndexedName} (hne : names ≠ [])
    (hnames : ∀ indexed ∈ names, ∃ entity,
      Table.find ResearchEntity.entityId indexed.entityId index.entities = some entity) :
    candidatesOf unicode index text eventTime config names ≠ [] := by
  obtain ⟨first, rest, rfl⟩ := List.exists_cons_of_ne_nil hne
  have hfind : Table.find IndexedName.entityId first.entityId
      ((first :: rest).foldl (orInsert IndexedName.entityId) []) = some first := by
    rw [find_foldl_orInsert]
    simp [Table.find]
  obtain ⟨entity, hentity⟩ := hnames first List.mem_cons_self
  unfold candidatesOf
  dsimp only
  rw [ne_eq, ← List.length_eq_zero_iff, List.length_insertionSort, List.length_eq_zero_iff]
  intro hnil
  have hnone := List.filterMap_eq_nil_iff.1 hnil first (Table.mem_of_find hfind)
  rw [hentity] at hnone
  cases hnone

variable (unicode text) in
/-- A row whose names belong to entities is linked at its place. -/
theorem exists_linkOf (hne : row.names ≠ [])
    (hnames : ∀ indexed ∈ row.names, ∃ entity,
      Table.find ResearchEntity.entityId indexed.entityId index.entities = some entity) :
    ∃ link, linkOf unicode digest index revisionId text eventTime config proposedByModel row = some link ∧
      link.span = row.place ∧ (∃ indexed ∈ row.names, link.finalEntityId = some indexed.entityId) ∧
      (link.eligibleForAgent = true → proposedByModel = false ∧
        config.acceptanceThreshold ≤ link.confidence ∧ Text.trim revisionId ≠ "") := by
  have hsome : candidatesOf unicode index text eventTime config row.names ≠ [] :=
    candidatesOf_ne_nil eventTime config hne hnames
  unfold linkOf
  dsimp only
  cases hcandidates : candidatesOf unicode index text eventTime config row.names with
  | nil => exact absurd hcandidates hsome
  | cons best rest =>
    have hbest : best ∈ candidatesOf unicode index text eventTime config row.names := by
      rw [hcandidates]
      exact List.mem_cons_self
    obtain ⟨indexed, hindexed, hid⟩ := mem_candidatesOf eventTime config hbest
    refine ⟨_, rfl, rfl, ⟨indexed, hindexed, ?_⟩, fun heligible => ?_⟩
    · rw [hid]
      rfl
    · simp only [makeLink, Bool.and_eq_true, decide_eq_true_eq, Bool.not_eq_true'] at heligible
      exact ⟨heligible.1.2, heligible.1.1.2, heligible.2⟩

end

end Astock.Linking
