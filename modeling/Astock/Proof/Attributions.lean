import Mathlib
import Astock.Proof.EvidenceRegistry
import Astock.Spec.Catalog

/-!
# Where the attribution of a fact comes from

* `Located`: a place of a document, with the tokens of its pointer and the objects
  around it. A document has one place for each pointer (`Located.unique`).
* `find_index`: the index of a walk holds the objects that change something, and
  nothing else, each under its own pointer.
* `attributionFor_eq`: looking up a pointer finds what the objects around it assert.
* `ingest_attributes`: **a fact that a result registers is attributed by the innermost
  objects around it**, outside any `evidence_registry`.
-/

namespace Astock

open Report (EvidenceDescriptor)

variable {result : Json} {root : Attribution}

/-! ## Places -/

/-- A place of a document: the tokens of its pointer, the objects around it, nearest
first, and what stands there. -/
inductive Located (result : Json) : List String → List (List (String × Json)) → Json → Prop
  | root : Located result [] [] result
  | field {tokens : List String} {enclosing : List (List (String × Json))}
      {fields : List (String × Json)} {key : String} {child : Json}
      (h : Located result tokens enclosing (.obj fields)) (hfield : (key, child) ∈ fields) :
      Located result (tokens ++ [key]) (fields :: enclosing) child
  | item {tokens : List String} {enclosing : List (List (String × Json))} {items : List Json}
      {index : ℕ} {child : Json} (h : Located result tokens enclosing (.arr items))
      (hitem : items[index]? = some child) :
      Located result (tokens ++ [toString index]) enclosing child

theorem pointer_append (tokens rest : List String) :
    pointer (tokens ++ rest) = pointer tokens ++ pointer rest := by
  induction tokens with
  | nil => simp [pointer]
  | cons token tokens ih =>
    show "/" ++ escapePointer token ++ pointer (tokens ++ rest)
      = "/" ++ escapePointer token ++ pointer tokens ++ pointer rest
    rw [ih]
    simp only [String.append_assoc]

theorem pointer_snoc (tokens : List String) (token : String) :
    pointer (tokens ++ [token]) = pointer tokens ++ "/" ++ escapePointer token := by
  rw [pointer_append]
  show pointer tokens ++ ("/" ++ escapePointer token ++ "") = _
  rw [String.append_empty, String.append_assoc]

theorem Located.wf {tokens : List String} {enclosing : List (List (String × Json))} {value : Json}
    (h : Located result tokens enclosing value) (hwf : result.WF) : value.WF := by
  induction h with
  | root => exact hwf
  | field h hfield ih =>
    cases ih with
    | obj hkeys hall => exact hall _ hfield
  | item h hitem ih =>
    cases ih with
    | arr hall => exact hall _ (List.mem_of_getElem? hitem)

/-- **One place for each pointer.** -/
theorem Located.unique (hwf : result.WF) {tokens : List String}
    {enclosing enclosing' : List (List (String × Json))} {value value' : Json}
    (h : Located result tokens enclosing value) (h' : Located result tokens enclosing' value') :
    enclosing = enclosing' ∧ value = value' := by
  induction h generalizing enclosing' value' with
  | root =>
    generalize htokens : ([] : List String) = tokens at h'
    cases h' with
    | root => exact ⟨rfl, rfl⟩
    | field _ _ => simp at htokens
    | item _ _ => simp at htokens
  | @field tokens enclosing fields key child h hfield ih =>
    generalize htokens : tokens ++ [key] = tokens' at h'
    cases h' with
    | root => simp at htokens
    | field h₁ hfield₁ =>
      obtain ⟨rfl, hkey⟩ := List.append_inj' htokens rfl
      obtain ⟨rfl, hobj⟩ := ih h₁
      obtain rfl := Json.obj.inj hobj
      obtain rfl := List.singleton_inj.1 hkey
      cases h.wf hwf with
      | obj hkeys _ =>
        refine ⟨rfl, ?_⟩
        have hnodup : (fields.map Prod.fst).Nodup := hkeys.imp fun hlt => ne_of_lt hlt
        exact (Prod.mk.inj (List.inj_on_of_nodup_map hnodup hfield hfield₁ rfl)).2
    | item h₁ _ =>
      obtain ⟨rfl, -⟩ := List.append_inj' htokens rfl
      exact absurd (ih h₁).2 (by simp)
  | @item tokens enclosing items index child h hitem ih =>
    generalize htokens : tokens ++ [toString index] = tokens' at h'
    cases h' with
    | root => simp at htokens
    | field h₁ _ =>
      obtain ⟨rfl, -⟩ := List.append_inj' htokens rfl
      exact absurd (ih h₁).2 (by simp)
    | @item _ _ items₁ index₁ _ h₁ hitem₁ =>
      obtain ⟨rfl, hindex⟩ := List.append_inj' htokens rfl
      obtain ⟨rfl, harr⟩ := ih h₁
      obtain rfl := Json.arr.inj harr
      have hsame : index = index₁ := by
        have hdigits := congrArg String.toList (List.singleton_inj.1 hindex)
        exact Text.toDigits_inj (by simpa [Nat.toList_repr] using hdigits)
      subst hsame
      exact ⟨rfl, Option.some.inj (hitem.symm.trans hitem₁)⟩

/-! ## What the objects around a place assert -/

/-- What is asserted inside the given objects, nearest first. -/
def attributionAt (root : Attribution) (enclosing : List (List (String × Json))) : Attribution :=
  enclosing.foldr (fun object inherited => inherited.extended object) root

/-- **Field by field**, the innermost object that asserts it, and the root else. -/
theorem attributionAt_eq (root : Attribution) (enclosing : List (List (String × Json))) :
    attributionAt root enclosing = {
      symbol := (enclosing.findSome? Attribution.symbolOf).or root.symbol
      documentTitle := (enclosing.findSome? Attribution.titleOf).or root.documentTitle
      publishedAt := (enclosing.findSome? Attribution.publishedAtOf).or root.publishedAt
      unit := (enclosing.findSome? Attribution.unitOf).or root.unit } := by
  induction enclosing with
  | nil => rfl
  | cons object rest ih =>
    show (attributionAt root rest).extended object = _
    rw [ih]
    unfold Attribution.extended
    simp only [List.findSome?_cons]
    congr 1
    · cases Attribution.symbolOf object <;> rfl
    · cases Attribution.titleOf object <;> rfl
    · cases Attribution.publishedAtOf object <;> rfl
    · cases Attribution.unitOf object <;> rfl

/-- An object never takes back what was asserted. -/
theorem eq_of_extended_isEmpty {inherited : Attribution} {object : List (String × Json)}
    (h : (inherited.extended object).isEmpty = true) : inherited.extended object = inherited := by
  have hempty : inherited.extended object = {} := of_decide_eq_true h
  have hsymbol := congrArg Attribution.symbol hempty
  have htitle := congrArg Attribution.documentTitle hempty
  have hpublished := congrArg Attribution.publishedAt hempty
  have hunit := congrArg Attribution.unit hempty
  simp only [Attribution.extended, Option.or_eq_none_iff] at hsymbol htitle hpublished hunit
  rw [hempty]
  cases inherited
  simp_all

/-! ## The index -/

/-- An object outside any registry that changes what is asserted, as it is recorded. -/
def Catalogued (result : Json) (root : Attribution) (x : String × Attribution) : Prop :=
  ∃ tokens enclosing fields, Located result tokens enclosing (.obj fields) ∧
    "evidence_registry" ∉ tokens ∧
    x = (pointer tokens, attributionAt root (fields :: enclosing)) ∧
    attributionAt root (fields :: enclosing) ≠ attributionAt root enclosing ∧
    (attributionAt root (fields :: enclosing)).isEmpty = false

/-- A pointer is recorded in one way. -/
theorem Catalogued.eq (hwf : result.WF) {x y : String × Attribution} (hx : Catalogued result root x)
    (hy : Catalogued result root y) (h : x.1 = y.1) : x = y := by
  obtain ⟨tokens, enclosing, fields, hplaced, -, rfl, -⟩ := hx
  obtain ⟨tokens', enclosing', fields', hplaced', -, rfl, -⟩ := hy
  obtain rfl := pointer_inj h
  obtain ⟨rfl, hobj⟩ := hplaced.unique hwf hplaced'
  obtain rfl := Json.obj.inj hobj
  rfl

/-- What a part of the walk does to the index. -/
structure Grows (result : Json) (root : Attribution) (out out' : AttributionIndex) : Prop where
  sound : ∀ x ∈ out', x ∈ out ∨ Catalogued result root x
  keep : ∀ x, Catalogued result root x → x ∈ out → x ∈ out'
  keys : ∀ x ∈ out, ∃ y ∈ out', y.1 = x.1
  nodup : (out.map Prod.fst).Nodup → (out'.map Prod.fst).Nodup

theorem Grows.refl (out : AttributionIndex) : Grows result root out out :=
  ⟨fun _ => .inl, fun _ _ h => h, fun x h => ⟨x, h, rfl⟩, id⟩

theorem Grows.trans {out out' out'' : AttributionIndex} (h : Grows result root out out')
    (h' : Grows result root out' out'') : Grows result root out out'' where
  sound x hx := (h'.sound x hx).elim (h.sound x) .inr
  keep x hx hmem := h'.keep x hx (h.keep x hx hmem)
  keys x hx := by
    obtain ⟨y, hy, heq⟩ := h.keys x hx
    obtain ⟨z, hz, heq'⟩ := h'.keys y hy
    exact ⟨z, hz, heq'.trans heq⟩
  nodup hnodup := h'.nodup (h.nodup hnodup)

/-- Recording an object. -/
theorem Grows.insert (hwf : result.WF) {x : String × Attribution} (hx : Catalogued result root x)
    (out : AttributionIndex) : Grows result root out (Table.insertOrdered Prod.fst x out) where
  sound y hy := (Table.mem_insertOrdered.1 hy).elim (fun heq => .inr (heq ▸ hx)) fun h => .inl h.1
  keep y hy hmem := by
    refine Table.mem_insertOrdered.2 ?_
    by_cases hkey : y.1 = x.1
    · exact .inl (hy.eq hwf hx hkey)
    · exact .inr ⟨hmem, hkey⟩
  keys y hy := by
    by_cases hkey : y.1 = x.1
    · exact ⟨x, Table.mem_insertOrdered.2 (.inl rfl), hkey.symm⟩
    · exact ⟨y, Table.mem_insertOrdered.2 (.inr ⟨hy, hkey⟩), rfl⟩
  nodup hnodup := Table.nodup_insertOrdered hnodup

theorem grows_fields {fields : List (String × Json)} {path : String} {attribution : Attribution}
    (h : ∀ f ∈ fields, f.1 ≠ "evidence_registry" → ∀ out, Grows result root out
      (collectAttribution f.2 (path ++ "/" ++ escapePointer f.1) attribution out)) :
    ∀ out, Grows result root out (collectAttributionFields fields path attribution out) := by
  induction fields with
  | nil => exact Grows.refl
  | cons f rest ih =>
    intro out
    rw [collectAttributionFields]
    refine Grows.trans ?_ (ih (fun g hg => h g (List.mem_cons_of_mem _ hg)) _)
    split
    · exact Grows.refl out
    · rename_i hkey
      exact h f List.mem_cons_self hkey out

theorem grows_items {items : List Json} {path : String} {attribution : Attribution} :
    ∀ {start : ℕ}, (∀ index child, items[index]? = some child → ∀ out, Grows result root out
      (collectAttribution child (path ++ "/" ++ toString (start + index)) attribution out)) →
    ∀ out, Grows result root out (collectAttributionItems items start path attribution out) := by
  induction items with
  | nil => exact fun _ => Grows.refl
  | cons item rest ih =>
    intro start h out
    rw [collectAttributionItems]
    refine Grows.trans (h 0 item rfl out) (ih (fun index child hitem => ?_) _)
    rw [show start + 1 + index = start + (index + 1) by omega]
    exact h (index + 1) child hitem

/-- An array index is not the key the walk skips. -/
theorem registry_ne_index (index : ℕ) : "evidence_registry" ≠ toString index := by
  intro heq
  have hdigits : Nat.toDigits 10 index = "evidence_registry".toList := by rw [heq]; simp
  have hdigit : 'e'.isDigit := Nat.isDigit_of_mem_toDigits (b := 10) (n := index) (by decide)
    (by decide) (by rw [hdigits]; decide)
  exact absurd hdigit (by decide)

/-- **The walk** records what it should, below every place it reaches. -/
theorem grows_walk (root : Attribution) (hwf : result.WF) (value : Json) : ∀ {tokens : List String}
    {enclosing : List (List (String × Json))}, Located result tokens enclosing value →
    "evidence_registry" ∉ tokens → ∀ out, Grows result root out
      (collectAttribution value (pointer tokens) (attributionAt root enclosing) out) := by
  induction value using Json.induction with
  | obj fields ih =>
    intro tokens enclosing hplaced hout out
    rw [collectAttribution]
    refine Grows.trans ?_ (grows_fields (fun f hf hkey out => ?_) _)
    · split
      · rename_i hchange
        refine Grows.insert hwf ⟨tokens, enclosing, fields, hplaced, hout, rfl, hchange.1, ?_⟩ out
        have hsome := hchange.2
        rw [Bool.not_eq_true'] at hsome
        exact hsome
      · exact Grows.refl out
    · have hchild := ih f hf (hplaced.field hf) (by simp [hout, Ne.symm hkey]) out
      rw [pointer_snoc] at hchild
      exact hchild
  | arr items ih =>
    intro tokens enclosing hplaced hout out
    rw [collectAttribution]
    refine grows_items (fun index child hitem out => ?_) out
    have hnot : "evidence_registry" ∉ tokens ++ [toString index] := by
      rw [List.mem_append, List.mem_singleton, not_or]
      exact ⟨hout, registry_ne_index index⟩
    have hchild := ih child (List.mem_of_getElem? hitem) (hplaced.item hitem) hnot out
    rw [pointer_snoc, escapePointer_index] at hchild
    rw [Nat.zero_add]
    exact hchild
  | _ => exact fun _ _ out => Grows.refl out

/-- What the walk of a field records, the walk of the object records. -/
theorem mem_fields {fields : List (String × Json)} {path key : String} {child : Json}
    {attribution : Attribution} {x : String × Attribution} (hx : Catalogued result root x)
    (hgrows : ∀ f ∈ fields, f.1 ≠ "evidence_registry" → ∀ out, Grows result root out
      (collectAttribution f.2 (path ++ "/" ++ escapePointer f.1) attribution out))
    (hfield : (key, child) ∈ fields) (hkey : key ≠ "evidence_registry")
    (h : ∀ out, x ∈ collectAttribution child (path ++ "/" ++ escapePointer key) attribution out) :
    ∀ out, x ∈ collectAttributionFields fields path attribution out := by
  induction fields with
  | nil => simp at hfield
  | cons f rest ih =>
    intro out
    have hrest := fun g hg => hgrows g (List.mem_cons_of_mem f hg)
    rw [collectAttributionFields]
    rcases List.mem_cons.1 hfield with rfl | hmem
    · rw [if_neg hkey]
      exact (grows_fields hrest _).keep x hx (h out)
    · exact ih hrest hmem _

/-- What the walk of an item records, the walk of the array records. -/
theorem mem_items {items : List Json} {path : String} {attribution : Attribution}
    {x : String × Attribution} (hx : Catalogued result root x) : ∀ {start index : ℕ} {child : Json},
    (∀ index child, items[index]? = some child → ∀ out, Grows result root out
      (collectAttribution child (path ++ "/" ++ toString (start + index)) attribution out)) →
    items[index]? = some child →
    (∀ out, x ∈ collectAttribution child (path ++ "/" ++ toString (start + index)) attribution out) →
    ∀ out, x ∈ collectAttributionItems items start path attribution out := by
  induction items with
  | nil => intro start index child _ hitem; simp at hitem
  | cons item rest ih =>
    intro start index child hgrows hitem h out
    rw [collectAttributionItems]
    have hrest : ∀ index child, rest[index]? = some child → ∀ out, Grows result root out
        (collectAttribution child (path ++ "/" ++ toString (start + 1 + index)) attribution out) := by
      intro index child hitem
      rw [show start + 1 + index = start + (index + 1) by omega]
      exact hgrows (index + 1) child hitem
    cases index with
    | zero =>
      obtain rfl := Option.some.inj hitem
      exact (grows_items hrest _).keep x hx (h out)
    | succ index =>
      have hitem : rest[index]? = some child := hitem
      refine ih hrest hitem (fun out => ?_) _
      rw [show start + 1 + index = start + (index + 1) by omega]
      exact h out

/-- **What the walk of a place records, the whole walk records.** -/
theorem mem_walk (hwf : result.WF) {tokens : List String}
    {enclosing : List (List (String × Json))} {value : Json}
    (hplaced : Located result tokens enclosing value) (hout : "evidence_registry" ∉ tokens)
    {x : String × Attribution} (hx : Catalogued result root x)
    (h : ∀ out, x ∈ collectAttribution value (pointer tokens) (attributionAt root enclosing) out) :
    ∀ out, x ∈ collectAttribution result "" root out := by
  induction hplaced with
  | root => exact h
  | @field tokens enclosing fields key child hparent hfield ih =>
    rw [List.mem_append, List.mem_singleton, not_or] at hout
    refine ih hout.1 fun out => ?_
    rw [collectAttribution]
    refine mem_fields hx (fun f hf hkey out => ?_) hfield (Ne.symm hout.2) (fun out => ?_) _
    · have hgrows := grows_walk root hwf f.2 (hparent.field hf)
        (by simp [hout.1, Ne.symm hkey]) out
      rw [pointer_snoc] at hgrows
      exact hgrows
    · have hchild := h out
      rw [pointer_snoc] at hchild
      exact hchild
  | @item tokens enclosing items index child hparent hitem ih =>
    rw [List.mem_append, List.mem_singleton, not_or] at hout
    refine ih hout.1 fun out => ?_
    rw [collectAttribution]
    refine mem_items hx (fun index child hitem out => ?_) hitem (fun out => ?_) _
    · have hnot : "evidence_registry" ∉ tokens ++ [toString index] := by
        rw [List.mem_append, List.mem_singleton, not_or]
        exact ⟨hout.1, registry_ne_index index⟩
      have hgrows := grows_walk root hwf child (hparent.item hitem) hnot out
      rw [pointer_snoc, escapePointer_index] at hgrows
      rw [Nat.zero_add]
      exact hgrows
    · have hchild := h out
      rw [pointer_snoc, escapePointer_index] at hchild
      rw [Nat.zero_add]
      exact hchild

/-! ## Looking a pointer up -/

theorem beforeLastSlash_append {path segment : String} (h : '/' ∉ segment.toList) :
    beforeLastSlash (path ++ "/" ++ segment) = some path := by
  have hlist : (path ++ "/" ++ segment).toList.reverse
      = segment.toList.reverse ++ '/' :: path.toList.reverse := by simp
  have hdrop : (segment.toList.reverse ++ '/' :: path.toList.reverse).dropWhile (· ≠ '/')
      = '/' :: path.toList.reverse := by
    rw [List.dropWhile_append_of_pos]
    · simp
    · intro c hc
      have hmem := List.mem_reverse.1 hc
      simp only [ne_eq, decide_eq_true_eq]
      rintro rfl
      exact h hmem
  unfold beforeLastSlash
  rw [hlist, hdrop]
  simp

theorem attributionFor_found {path : String} {index : AttributionIndex} {x : String × Attribution}
    (h : Table.find Prod.fst path index = some x) : attributionFor path index = some x.2 := by
  rw [attributionFor, h]

theorem attributionFor_cut {path segment : String} {index : AttributionIndex}
    (hsegment : '/' ∉ segment.toList)
    (h : Table.find Prod.fst (path ++ "/" ++ segment) index = none) :
    attributionFor (path ++ "/" ++ segment) index = attributionFor path index := by
  rw [attributionFor, h]
  dsimp only
  split
  · rename_i candidate hcandidate
    rw [beforeLastSlash_append hsegment] at hcandidate
    rw [Option.some.inj hcandidate]
  · rename_i hnone
    rw [beforeLastSlash_append hsegment] at hnone
    simp at hnone

theorem attributionFor_root {index : AttributionIndex} (h : Table.find Prod.fst "" index = none) :
    attributionFor "" index = none := by
  rw [attributionFor, h]
  dsimp only
  split
  · rename_i candidate hcandidate
    simp [beforeLastSlash] at hcandidate
  · rfl

/-- An empty index attributes nothing. -/
theorem attributionFor_nil (path : String) : attributionFor path [] = none := by
  induction hn : path.length using Nat.strong_induction_on generalizing path with
  | _ n ih =>
    rw [attributionFor]
    dsimp only [Table.find, List.find?_nil]
    split
    · rename_i candidate hcandidate
      exact ih _ (hn ▸ beforeLastSlash_length hcandidate) candidate rfl
    · rfl

/-- The objects around what is inside a value. -/
def around (enclosing : List (List (String × Json))) : Json → List (List (String × Json))
  | .obj fields => fields :: enclosing
  | _ => enclosing

section Index

variable {fallback : Option String}

/-- The index starts with what the call established, if anything. -/
def rootEntry (root : Attribution) : AttributionIndex := if !root.isEmpty then [("", root)] else []

theorem attributionIndex_eq : attributionIndex result fallback
    = collectAttribution result "" { symbol := fallback } (rootEntry { symbol := fallback }) := rfl

/-- **What the index holds at a place**: what is asserted inside it, when that is found;
where nothing is, what is asserted around it, and at the root nothing. -/
theorem find_index (root : Attribution) (hwf : result.WF) {tokens : List String}
    {enclosing : List (List (String × Json))} {value : Json}
    (hplaced : Located result tokens enclosing value) (hout : "evidence_registry" ∉ tokens) :
    match Table.find Prod.fst (pointer tokens) (collectAttribution result "" root (rootEntry root)) with
    | some x => x.2 = attributionAt root (around enclosing value)
    | none => attributionAt root (around enclosing value) = attributionAt root enclosing ∧
        (tokens = [] → root = {}) := by
  have hgrows : Grows result root (rootEntry root) _ :=
    grows_walk root hwf result .root (by simp) (rootEntry root)
  have hnodup := hgrows.nodup (by unfold rootEntry; split <;> simp)
  set index := collectAttribution result "" root (rootEntry root) with hindex
  -- an object that changes something is recorded here
  have hrecorded : ∀ fields, value = .obj fields →
      attributionAt root (fields :: enclosing) ≠ attributionAt root enclosing →
      (pointer tokens, attributionAt root (fields :: enclosing)) ∈ index := by
    rintro fields rfl hchange
    have hsome : (attributionAt root (fields :: enclosing)).isEmpty = false := by
      by_contra hempty
      exact hchange (eq_of_extended_isEmpty (eq_true_of_ne_false hempty))
    have hx : Catalogued result root (pointer tokens, attributionAt root (fields :: enclosing)) :=
      ⟨tokens, enclosing, fields, hplaced, hout, rfl, hchange, hsome⟩
    refine mem_walk hwf hplaced hout hx (fun out => ?_) (rootEntry root)
    rw [collectAttribution]
    refine (grows_fields (fun f hf hkey out => ?_) _).keep _ hx ?_
    · have hchild := grows_walk root hwf f.2 (hplaced.field hf)
        (by simp [hout, Ne.symm hkey]) out
      rw [pointer_snoc] at hchild
      exact hchild
    · have hset : (!(attributionAt root (fields :: enclosing)).isEmpty) = true := by rw [hsome]; rfl
      rw [if_pos ⟨hchange, hset⟩]
      exact Table.mem_insertOrdered.2 (.inl rfl)
  have haround : (∃ fields, value = .obj fields ∧
      attributionAt root (fields :: enclosing) ≠ attributionAt root enclosing) ∨
      attributionAt root (around enclosing value) = attributionAt root enclosing := by
    cases value with
    | obj fields =>
      by_cases hchange : attributionAt root (fields :: enclosing) = attributionAt root enclosing
      · exact .inr hchange
      · exact .inl ⟨fields, rfl, hchange⟩
    | _ => exact .inr rfl
  rcases hfind : Table.find Prod.fst (pointer tokens) index with _ | x
  · have hnone := (Table.find_eq_none Prod.fst).1 hfind
    refine ⟨haround.resolve_left ?_, ?_⟩
    · rintro ⟨fields, hvalue, hchange⟩
      exact hnone _ (hrecorded fields hvalue hchange) rfl
    · rintro rfl
      by_contra hroot
      have hentry : ("", root) ∈ rootEntry root := by
        unfold rootEntry
        rw [if_pos (by simpa [Attribution.isEmpty] using hroot)]
        exact List.mem_singleton_self _
      obtain ⟨y, hy, hkey⟩ := hgrows.keys _ hentry
      exact hnone y hy hkey
  · have hmem := Table.mem_of_find hfind
    have hkey : x.1 = pointer tokens := Table.key_of_find hfind
    rcases haround with ⟨fields, rfl, hchange⟩ | haround
    · have hrow := Table.find_of_mem hnodup (hrecorded fields rfl hchange)
      rw [Option.some.inj (hfind.symm.trans hrow)]
      rfl
    · rw [haround]
      rcases hgrows.sound x hmem with hroot | ⟨tokens', enclosing', fields, hplaced', -, rfl, hchange, -⟩
      · -- the entry of the call, at the root
        unfold rootEntry at hroot
        split at hroot
        · obtain rfl := List.mem_singleton.1 hroot
          obtain rfl : tokens = [] := pointer_inj (hkey.symm.trans (rfl : "" = pointer []))
          obtain ⟨rfl, -⟩ := hplaced.unique hwf .root
          rfl
        · simp at hroot
      · obtain rfl := pointer_inj hkey
        obtain ⟨rfl, rfl⟩ := hplaced.unique hwf hplaced'
        exact absurd haround hchange

/-- **Looking up a pointer** finds what is asserted there. -/
theorem attributionFor_eq (root : Attribution) (hwf : result.WF) {tokens : List String}
    {enclosing : List (List (String × Json))} {value : Json}
    (hplaced : Located result tokens enclosing value) (hout : "evidence_registry" ∉ tokens) :
    (attributionFor (pointer tokens) (collectAttribution result "" root (rootEntry root))).getD {}
      = attributionAt root (around enclosing value) := by
  -- where the place itself is not recorded, the place around it is looked up
  have hstep : ∀ {tokens : List String} {token : String} {enclosing : List (List (String × Json))}
      {value : Json}, Located result (tokens ++ [token]) enclosing value →
      "evidence_registry" ∉ tokens ++ [token] →
      (attributionFor (pointer tokens) (collectAttribution result "" root (rootEntry root))).getD {}
        = attributionAt root enclosing →
      (attributionFor (pointer (tokens ++ [token]))
        (collectAttribution result "" root (rootEntry root))).getD {}
        = attributionAt root (around enclosing value) := by
    intro tokens token enclosing value hplaced hout hparent
    have hfind := find_index root hwf hplaced hout
    rcases hx : Table.find Prod.fst (pointer (tokens ++ [token]))
      (collectAttribution result "" root (rootEntry root)) with _ | x
    · rw [hx] at hfind
      rw [pointer_snoc] at hx
      rw [pointer_snoc, attributionFor_cut (slash_notMem_escapePointer token) hx, hparent, hfind.1]
    · rw [hx] at hfind
      rw [attributionFor_found hx]
      exact hfind
  induction hplaced with
  | root =>
    have hfind := find_index root hwf (.root : Located result [] [] result) (by simp)
    rcases hx : Table.find Prod.fst (pointer []) (collectAttribution result "" root (rootEntry root))
      with _ | x
    · rw [hx] at hfind
      have hroot : attributionFor (pointer []) _ = none := attributionFor_root hx
      rw [hroot, hfind.1]
      exact (hfind.2 rfl).symm
    · rw [hx] at hfind
      rw [attributionFor_found hx]
      exact hfind
  | field hparent hfield ih =>
    have hparts := hout
    rw [List.mem_append, not_or] at hparts
    exact hstep (hparent.field hfield) hout (ih hparts.1)
  | item hparent hitem ih =>
    have hparts := hout
    rw [List.mem_append, not_or] at hparts
    exact hstep (hparent.item hitem) hout (ih hparts.1)

end Index

/-! ## Registering facts -/

namespace EvidenceCatalog

variable {c : EvidenceCatalog} {index : AttributionIndex} {id : String}

theorem find_insert_fact (fact : RawFact) (rows : List RawFact) :
    Table.find RawFact.evidenceId fact.evidenceId
      (Table.insertOrdered RawFact.evidenceId fact rows) = some fact := Table.find_insertOrdered_self

theorem find_insert_descriptor (d : EvidenceDescriptor) (rows : List EvidenceDescriptor) :
    Table.find EvidenceDescriptor.evidenceId d.evidenceId
      (Table.insertOrdered EvidenceDescriptor.evidenceId d rows) = some d :=
  Table.find_insertOrdered_self

/-- Another row is found as before. -/
theorem find_insert_descriptor_of_ne {d : EvidenceDescriptor} {rows : List EvidenceDescriptor}
    (h : id ≠ d.evidenceId) : Table.find EvidenceDescriptor.evidenceId id
      (Table.insertOrdered EvidenceDescriptor.evidenceId d rows)
      = Table.find EvidenceDescriptor.evidenceId id rows := Table.find_insertOrdered_of_ne h

/-- What a descriptor says of its attribution. -/
def attribution (d : EvidenceDescriptor) : Attribution where
  symbol := d.symbol
  documentTitle := d.documentTitle
  publishedAt := d.publishedAt
  unit := d.unit

/-- The identifier is registered, with the attribution of its path. -/
def Described (index : AttributionIndex) (c : EvidenceCatalog) (id : String) : Prop :=
  ∃ f d, c.fact id = some f ∧ c.descriptor id = some d ∧ d.field = some f.path ∧
    attribution d = (attributionFor f.path index).getD {}

theorem attribution_describe (fact : RawFact) (a : Option Attribution) :
    attribution (describe fact a) = a.getD {} := by
  cases a <;> rfl

/-- An edit of a descriptor that leaves its origin alone. -/
theorem descriptor_editDescriptor {f : EvidenceDescriptor → EvidenceDescriptor} {k : String}
    {d : EvidenceDescriptor} (hf : ∀ d, (f d).evidenceId = d.evidenceId)
    (horigin : ∀ d, (f d).field = d.field ∧ attribution (f d) = attribution d)
    (h : c.descriptor id = some d) :
    ∃ d', (c.editDescriptor k f).descriptor id = some d' ∧ d'.field = d.field ∧
      attribution d' = attribution d := by
  by_cases hk : id = k
  · subst hk
    refine ⟨f d, ?_, (horigin d).1, (horigin d).2⟩
    have hfind : Table.find EvidenceDescriptor.evidenceId id (c.editDescriptor id f).descriptors
        = (Table.find EvidenceDescriptor.evidenceId id c.descriptors).map f :=
      Table.find_update_self hf
    exact hfind.trans (by rw [show Table.find _ id c.descriptors = some d from h]; rfl)
  · exact ⟨d, (Table.find_update_of_ne hf hk).trans h, rfl, rfl⟩

/-- **A registered fact keeps its attribution** when it is registered again. -/
theorem Described.registerAgain {existing fact : RawFact} (h : Described index c id)
    (hexisting : c.fact fact.evidenceId = some existing) :
    Described index (c.registerAgain existing fact) id := by
  obtain ⟨f, d, hf, hd, hfield, hattr⟩ := h
  unfold EvidenceCatalog.registerAgain
  split
  · obtain ⟨d', hd', hfield', hattr'⟩ := descriptor_editDescriptor (k := fact.evidenceId)
      (f := fun d => { d with conflicting := true }) (fun _ => rfl) (fun _ => ⟨rfl, rfl⟩) hd
    exact ⟨f, d', hf, hd', hfield'.trans hfield, hattr'.trans hattr⟩
  · rename_i hagrees
    split
    · obtain ⟨d', hd', hfield', hattr'⟩ := descriptor_editDescriptor (k := fact.evidenceId)
        (f := fun d => { d with observedAt := fact.observedAt }) (fun _ => rfl) (fun _ => ⟨rfl, rfl⟩) hd
      by_cases hid : id = fact.evidenceId
      · -- the fresher registration has the same path
        have hsame : f = existing := Option.some.inj (hf.symm.trans (hid ▸ hexisting))
        have hpath : existing.path = fact.path := by
          simp only [materiallyDisagrees, Bool.or_eq_true, decide_eq_true_eq, not_or, ne_eq,
            not_not] at hagrees
          exact hagrees.1.1.2
        refine ⟨fact, d', ?_, hd', ?_, ?_⟩
        · subst hid; exact find_insert_fact fact c.raw
        · rw [hfield', hfield, hsame, hpath]
        · rw [hattr', hattr, hsame, hpath]
      · exact ⟨f, d', (Table.find_insertOrdered_of_ne hid).trans hf, hd', hfield'.trans hfield,
          hattr'.trans hattr⟩
    · exact ⟨f, d, hf, hd, hfield, hattr⟩

theorem Described.register {fact : RawFact} (h : Described index c id) :
    Described index (register index c fact) id := by
  unfold EvidenceCatalog.register
  split
  · exact h
  split
  · rename_i existing hexisting
    exact h.registerAgain hexisting
  · rename_i hnone
    unfold EvidenceCatalog.registerNew
    split
    · exact h
    · obtain ⟨f, d, hf, hd, hfield, hattr⟩ := h
      have hid : id ≠ fact.evidenceId := by
        rintro rfl
        rw [hnone] at hf
        simp at hf
      exact ⟨f, d, (Table.find_insertOrdered_of_ne hid).trans hf,
        (find_insert_descriptor_of_ne (d := describe fact (attributionFor fact.path index)) hid).trans hd,
        hfield, hattr⟩

/-- **A fact is described when it is registered**: one step from a catalog without it. -/
theorem register_new {fact : RawFact} (h : c.fact id = none) :
    (register index c fact).fact id = none ∨ Described index (register index c fact) id := by
  unfold EvidenceCatalog.register
  split
  · exact .inl h
  split
  · rename_i existing hexisting
    have hid : id ≠ fact.evidenceId := by
      rintro rfl
      rw [hexisting] at h
      simp at h
    left
    unfold EvidenceCatalog.registerAgain
    split
    · exact h
    · split
      · exact (Table.find_insertOrdered_of_ne hid).trans h
      · exact h
  · unfold EvidenceCatalog.registerNew
    split
    · exact .inl h
    · by_cases hid : id = fact.evidenceId
      · subst hid
        exact .inr ⟨fact, describe fact (attributionFor fact.path index), find_insert_fact fact c.raw,
          find_insert_descriptor (describe fact (attributionFor fact.path index)) c.descriptors, rfl,
          attribution_describe _ _⟩
      · exact .inl ((Table.find_insertOrdered_of_ne hid).trans h)

/-- The facts of a result, one after the other. -/
theorem described_of_foldl (index : AttributionIndex) (id : String) (facts : List RawFact) :
    ∀ c : EvidenceCatalog, c.fact id = none ∨ Described index c id →
      (facts.foldl (register index) c).fact id = none ∨
        Described index (facts.foldl (register index) c) id := by
  induction facts with
  | nil => exact fun _ h => h
  | cons fact rest ih =>
    intro c h
    refine ih (register index c fact) ?_
    rcases h with hnone | hdescribed
    · exact register_new hnone
    · exact .inr hdescribed.register

end EvidenceCatalog

/-- The value is a leaf of its document. -/
def IsLeaf : Json → Prop
  | .obj _ | .arr _ => False
  | _ => True

/-- The descriptor says, field by field, what the innermost of the objects says that
asserts the field; the symbol may come from the call. -/
structure AttributedBy (enclosing : List (List (String × Json))) (fallback : Option String)
    (d : EvidenceDescriptor) : Prop where
  symbol : d.symbol = (enclosing.findSome? Attribution.symbolOf).or fallback
  documentTitle : d.documentTitle = enclosing.findSome? Attribution.titleOf
  publishedAt : d.publishedAt = enclosing.findSome? Attribution.publishedAtOf
  unit : d.unit = enclosing.findSome? Attribution.unitOf

/-- The fact is described with the attribution of the objects around its path. -/
def Attributed (c : EvidenceCatalog) (id : String) (enclosing : List (List (String × Json)))
    (fallback : Option String) : Prop :=
  ∃ d, c.descriptor id = some d ∧ AttributedBy enclosing fallback d

/-- **A new fact is attributed by the innermost objects around it**, when its path is
that of a leaf outside any registry. -/
theorem ingest_attributes (c : EvidenceCatalog) {result : Json} (hwf : result.WF)
    (fallback : Option String) {id : String} {fact : RawFact} (hnew : c.fact id = none)
    (hregistered : (c.ingest result fallback).fact id = some fact) {tokens : List String}
    {enclosing : List (List (String × Json))} {leaf : Json}
    (hplaced : Located result tokens enclosing leaf) (hleaf : IsLeaf leaf)
    (hpath : fact.path = pointer tokens) (hout : "evidence_registry" ∉ tokens) :
    Attributed (c.ingest result fallback) id enclosing fallback := by
  have hfold := EvidenceCatalog.described_of_foldl (attributionIndex result fallback) id
    (collectFacts result) c (.inl hnew)
  rcases hfold with hnone | ⟨f, d, hf, hd, -, hattr⟩
  · exact absurd (hnone.symm.trans hregistered) (by simp)
  have hsame : f = fact := Option.some.inj (hf.symm.trans hregistered)
  have haround : around enclosing leaf = enclosing := by
    cases leaf with
    | obj fields => exact hleaf.elim
    | _ => rfl
  have hlookup := attributionFor_eq { symbol := fallback } hwf hplaced hout
  rw [haround, attributionAt_eq] at hlookup
  rw [hsame, hpath, attributionIndex_eq, hlookup] at hattr
  refine ⟨d, hd, congrArg Attribution.symbol hattr, ?_, ?_, ?_⟩
  · exact (congrArg Attribution.documentTitle hattr).trans (Option.or_none ..)
  · exact (congrArg Attribution.publishedAt hattr).trans (Option.or_none ..)
  · exact (congrArg Attribution.unit hattr).trans (Option.or_none ..)

def bundleSecurity (symbol last : String) : List (String × Json) :=
  [("last", .num (.float last)), ("symbol", .str symbol)]

/-- A result about two securities that registers a fact of the second. -/
def bundle : List (String × Json) := [
  ("evidence_registry", .obj [("facts", .arr [.obj [("evidence_id", .str "evf_b"),
    ("path", .str "/securities/1/last"), ("source", .str "tencent"),
    ("value", .num (.float "41.2"))]])]),
  ("securities", .arr [.obj (bundleSecurity "601899" "34.47"), .obj (bundleSecurity "600036" "41.2")])]

theorem bundle_wf : (Json.obj bundle).WF := by
  have hsecurity : ∀ symbol, ∀ last ∈ ["34.47", "41.2"], (Json.obj (bundleSecurity symbol last)).WF := by
    intro symbol last hlast
    refine .obj (show ["last", "symbol"].Pairwise (· < ·) by decide) fun f hf => ?_
    simp only [bundleSecurity, List.mem_cons, List.not_mem_nil, or_false] at hf
    rcases hf with rfl | rfl
    · simp only [List.mem_cons, List.not_mem_nil, or_false] at hlast
      rcases hlast with rfl | rfl
      · exact .num (by unfold Json.Number.WF; decide)
      · exact .num (by unfold Json.Number.WF; decide)
    · exact .str _
  refine .obj (by decide) fun f hf => ?_
  simp only [bundle, List.mem_cons, List.not_mem_nil, or_false] at hf
  rcases hf with rfl | rfl
  · refine .obj (by decide) fun f hf => ?_
    obtain rfl := List.mem_singleton.1 hf
    refine .arr fun j hj => ?_
    obtain rfl := List.mem_singleton.1 hj
    refine .obj (by decide) fun f hf => ?_
    simp only [List.mem_cons, List.not_mem_nil, or_false] at hf
    rcases hf with rfl | rfl | rfl | rfl
    · exact .str _
    · exact .str _
    · exact .str _
    · exact .num (by unfold Json.Number.WF; decide)
  · refine .arr fun j hj => ?_
    simp only [List.mem_cons, List.not_mem_nil, or_false] at hj
    rcases hj with rfl | rfl
    · exact hsecurity _ _ (by simp)
    · exact hsecurity _ _ (by simp)

/-- The fact of the second security has its symbol, not that of the first. -/
theorem bundle_attributed : Attributed (EvidenceCatalog.ingest {} (.obj bundle) none) "evf_b"
    [bundleSecurity "600036" "41.2", bundle] none := by
  have hsecurity : Located (.obj bundle) ["securities", "1"] [bundle]
      (.obj (bundleSecurity "600036" "41.2")) :=
    .item (.field .root (.tail _ (.head _)))
      (show [_, _][1]? = some (Json.obj (bundleSecurity "600036" "41.2")) from rfl)
  exact ingest_attributes {} bundle_wf none rfl
    (show _ = some ⟨"evf_b", "/securities/1/last", .num (.float "41.2"), "tencent", none, none, false⟩
      by decide)
    (hsecurity.field (.head _)) trivial (by decide) (by decide)

/-- A row of a registry that names a unit. -/
def registryRow : List (String × Json) := [
  ("evidence_id", .str "evf_a"), ("path", .str "/evidence_registry/facts/0/value"),
  ("source", .str "tencent"), ("unit", .str "元"), ("value", .num (.posInt 1))]

def registryOnly : List (String × Json) :=
  [("evidence_registry", .obj [("facts", .arr [.obj registryRow])])]

/-- The walk passes by an `evidence_registry`, so a row of one attributes nothing. -/
theorem registryRow_unattributed :
    ¬ ∀ (c : EvidenceCatalog) (result : Json), result.WF → ∀ (fallback : Option String) (id : String)
      (fact : RawFact), c.fact id = none → (c.ingest result fallback).fact id = some fact →
      ∀ (tokens : List String) (enclosing : List (List (String × Json))) (leaf : Json),
        Located result tokens enclosing leaf → IsLeaf leaf → fact.path = pointer tokens →
        Attributed (c.ingest result fallback) id enclosing fallback := by
  intro h
  have hwf : (Json.obj registryOnly).WF := by
    refine .obj (by decide) fun f hf => ?_
    obtain rfl := List.mem_singleton.1 hf
    refine .obj (by decide) fun f hf => ?_
    obtain rfl := List.mem_singleton.1 hf
    refine .arr fun j hj => ?_
    obtain rfl := List.mem_singleton.1 hj
    refine .obj (by decide) fun f hf => ?_
    simp only [registryRow, List.mem_cons, List.not_mem_nil, or_false] at hf
    rcases hf with rfl | rfl | rfl | rfl | rfl
    · exact .str _
    · exact .str _
    · exact .str _
    · exact .str _
    · exact .num trivial
  set fact : RawFact :=
    ⟨"evf_a", "/evidence_registry/facts/0/value", .num (.posInt 1), "tencent", none, none, false⟩
  have hfact : (EvidenceCatalog.ingest {} (.obj registryOnly) none).fact "evf_a" = some fact := by
    decide
  have hrow : Located (.obj registryOnly) ["evidence_registry", "facts", "0"]
      [[("facts", .arr [.obj registryRow])], registryOnly] (.obj registryRow) :=
    .item (.field (.field .root (.head _)) (.head _)) (show [_][0]? = some (Json.obj registryRow) from rfl)
  obtain ⟨d, hd, hattr⟩ := h {} _ hwf none "evf_a" fact rfl hfact _ _ _
    (hrow.field (.tail _ (.tail _ (.tail _ (.tail _ (.head _)))))) trivial (by decide)
  -- the row names the unit, and nothing is recorded
  have hunit : d.unit = some "元" := hattr.unit.trans (by decide)
  have hindex : attributionIndex (.obj registryOnly) none = [] := by decide
  rcases EvidenceCatalog.described_of_foldl (attributionIndex (.obj registryOnly) none) "evf_a"
    (collectFacts (.obj registryOnly)) {} (.inl rfl)
    with hnone | ⟨f, d', -, hd', -, hattr'⟩
  · exact absurd (hnone.symm.trans hfact) (by simp)
  · obtain rfl := Option.some.inj (hd.symm.trans hd')
    rw [hindex, attributionFor_nil] at hattr'
    have hnone : d.unit = none := congrArg Attribution.unit hattr'
    rw [hunit] at hnone
    simp at hnone

end Astock
