import Astock.Spec.Evidence
import Mathlib.Data.String.Basic

/-!
# What an evidence registry holds

* `LeafAt`: a registrable leaf of a payload, with its pointer and the objects around it.
* `collectEvidenceFacts_eq`: what is collected is a part of the facts of the leaves, in order,
  and their number is `spent`, which depends on the shape of the payload only.
* `nodup_evidenceId`: two leaves have different identifiers.
* `evidenceRegistry_declares`: a registry declares every loss exactly when no item of an array
  has more leaves than its share, or the shares use up the registry.
-/

namespace Astock

variable {digest : ℕ → String → String} {scope : String}

/-! ## Leaves -/

/-- A registrable leaf: the tokens of its pointer and the objects around it, nearest first. -/
structure Leaf where
  tokens : List String
  enclosing : List (List (String × Json))
  value : Json

/-- A scalar fact of a payload, outside any `evidence_registry`. -/
inductive LeafAt : Json → Leaf → Prop
  | scalar {value : Json} (h : scalarFact value = true) : LeafAt value ⟨[], [], value⟩
  | field {fields : List (String × Json)} {key : String} {child : Json} {leaf : Leaf}
      (hfield : (key, child) ∈ fields) (hkey : key ≠ "evidence_registry") (h : LeafAt child leaf) :
      LeafAt (.obj fields) ⟨key :: leaf.tokens, leaf.enclosing ++ [fields], leaf.value⟩
  | item {items : List Json} {index : ℕ} {child : Json} {leaf : Leaf}
      (hitem : items[index]? = some child) (h : LeafAt child leaf) :
      LeafAt (.arr items) ⟨toString index :: leaf.tokens, leaf.enclosing, leaf.value⟩

/-- The JSON pointer of a leaf. -/
def pointer (tokens : List String) : String :=
  tokens.foldr (fun token rest => "/" ++ escapePointer token ++ rest) ""

/-- The metadata of the nearest enclosing object that has it. -/
def metadataAt (enclosing : List (List (String × Json))) : EvidenceMetadata where
  source := enclosing.findSome? fun object => metadataText object sourceKeys
  observedAt := enclosing.findSome? fun object => metadataText object observedKeys
  sourceVersionId := enclosing.findSome? fun object => metadataText object versionKeys
  qualityBlocking :=
    enclosing.any fun object => flag object "blocking" || flag object "quality_blocking"

/-- What a fact has to say of a leaf. -/
structure Describes (fact : EvidenceFact) (leaf : Leaf) : Prop where
  path : fact.path = pointer leaf.tokens
  value : fact.value = leaf.value
  source : fact.source = (metadataAt leaf.enclosing).source.getD "engine"
  observedAt : fact.observedAt = (metadataAt leaf.enclosing).observedAt
  sourceVersionId : ∀ version, (metadataAt leaf.enclosing).sourceVersionId = some version →
    fact.sourceVersionId = some version
  qualityBlocking : fact.qualityBlocking = (metadataAt leaf.enclosing).qualityBlocking

/-! ## The list of the leaves -/

def Leaf.at (token : String) (leaf : Leaf) : Leaf := { leaf with tokens := token :: leaf.tokens }

def Leaf.inside (object : List (String × Json)) (leaf : Leaf) : Leaf :=
  { leaf with enclosing := leaf.enclosing ++ [object] }

mutual
/-- The registrable leaves of a document, in the order of the text. -/
def leaves : Json → List Leaf
  | .obj fields => (fieldLeaves fields).map (Leaf.inside fields)
  | .arr items => itemLeaves items 0
  | value => if scalarFact value then [⟨[], [], value⟩] else []
def fieldLeaves : List (String × Json) → List Leaf
  | [] => []
  | (key, child) :: rest =>
    if key = "evidence_registry" then fieldLeaves rest
    else (leaves child).map (Leaf.at key) ++ fieldLeaves rest
def itemLeaves : List Json → ℕ → List Leaf
  | [], _ => []
  | child :: rest, index => (leaves child).map (Leaf.at (toString index)) ++ itemLeaves rest (index + 1)
end

theorem mem_fieldLeaves {fields : List (String × Json)} {leaf : Leaf} :
    leaf ∈ fieldLeaves fields ↔ ∃ key child inner, (key, child) ∈ fields ∧
      key ≠ "evidence_registry" ∧ inner ∈ leaves child ∧ leaf = inner.at key := by
  induction fields with
  | nil => simp [fieldLeaves]
  | cons f rest ih =>
    obtain ⟨k, c⟩ := f
    rw [fieldLeaves]
    by_cases hk : k = "evidence_registry"
    · rw [if_pos hk, ih]
      constructor
      · rintro ⟨key, child, inner, hmem, h⟩
        exact ⟨key, child, inner, List.mem_cons_of_mem _ hmem, h⟩
      · rintro ⟨key, child, inner, hmem, hkey, h⟩
        rcases List.mem_cons.1 hmem with heq | hmem
        · exact absurd ((Prod.mk.inj heq).1.trans hk) hkey
        · exact ⟨key, child, inner, hmem, hkey, h⟩
    · rw [if_neg hk, List.mem_append, ih, List.mem_map]
      constructor
      · rintro (⟨inner, hinner, rfl⟩ | ⟨key, child, inner, hmem, h⟩)
        · exact ⟨k, c, inner, List.mem_cons_self, hk, hinner, rfl⟩
        · exact ⟨key, child, inner, List.mem_cons_of_mem _ hmem, h⟩
      · rintro ⟨key, child, inner, hmem, hkey, hinner, rfl⟩
        rcases List.mem_cons.1 hmem with heq | hmem
        · obtain ⟨rfl, rfl⟩ := Prod.mk.inj heq
          exact .inl ⟨inner, hinner, rfl⟩
        · exact .inr ⟨key, child, inner, hmem, hkey, hinner, rfl⟩

theorem mem_itemLeaves {items : List Json} {leaf : Leaf} : ∀ {start : ℕ},
    leaf ∈ itemLeaves items start ↔ ∃ index child inner, items[index]? = some child ∧
      inner ∈ leaves child ∧ leaf = inner.at (toString (start + index)) := by
  induction items with
  | nil => simp [itemLeaves]
  | cons c rest ih =>
    intro start
    rw [itemLeaves, List.mem_append, ih, List.mem_map]
    constructor
    · rintro (⟨inner, hinner, rfl⟩ | ⟨index, child, inner, hitem, hinner, rfl⟩)
      · exact ⟨0, c, inner, rfl, hinner, rfl⟩
      · refine ⟨index + 1, child, inner, hitem, hinner, ?_⟩
        rw [show start + 1 + index = start + (index + 1) by omega]
    · rintro ⟨index, child, inner, hitem, hinner, rfl⟩
      cases index with
      | zero =>
        obtain rfl := Option.some.inj hitem
        exact .inl ⟨inner, hinner, rfl⟩
      | succ index =>
        refine .inr ⟨index, child, inner, hitem, hinner, ?_⟩
        rw [show start + 1 + index = start + (index + 1) by omega]

/-- **The list holds the leaves** and nothing else. -/
theorem mem_leaves {value : Json} : ∀ {leaf : Leaf}, leaf ∈ leaves value ↔ LeafAt value leaf := by
  have hscalar : ∀ value : Json, leaves value = (if scalarFact value then [⟨[], [], value⟩] else []) →
      (∀ leaf, LeafAt value leaf → scalarFact value = true ∧ leaf = ⟨[], [], value⟩) →
      ∀ {leaf : Leaf}, leaf ∈ leaves value ↔ LeafAt value leaf := by
    intro value hleaves honly leaf
    rw [hleaves]
    constructor
    · intro h
      split at h
      · rename_i hs
        rw [List.mem_singleton.1 h]
        exact .scalar hs
      · simp at h
    · intro h
      obtain ⟨hs, rfl⟩ := honly leaf h
      rw [if_pos hs]
      exact List.mem_singleton_self _
  induction value using Json.induction with
  | null => exact hscalar _ rfl fun _ h => by cases h with | scalar h => exact ⟨h, rfl⟩
  | bool b => exact hscalar _ rfl fun _ h => by cases h with | scalar h => exact ⟨h, rfl⟩
  | num n => exact hscalar _ rfl fun _ h => by cases h with | scalar h => exact ⟨h, rfl⟩
  | str s => exact hscalar _ rfl fun _ h => by cases h with | scalar h => exact ⟨h, rfl⟩
  | arr items ih =>
    intro leaf
    rw [leaves, mem_itemLeaves]
    constructor
    · rintro ⟨index, child, inner, hitem, hinner, rfl⟩
      rw [Nat.zero_add]
      exact .item hitem ((ih child (List.mem_of_getElem? hitem)).1 hinner)
    · intro h
      cases h with
      | scalar h => simp [scalarFact] at h
      | item hitem h =>
        refine ⟨_, _, _, hitem, (ih _ (List.mem_of_getElem? hitem)).2 h, ?_⟩
        rw [Nat.zero_add]
        rfl
  | obj fields ih =>
    intro leaf
    rw [leaves, List.mem_map]
    constructor
    · rintro ⟨outer, houter, rfl⟩
      obtain ⟨key, child, inner, hfield, hkey, hinner, rfl⟩ := mem_fieldLeaves.1 houter
      exact .field hfield hkey ((ih (key, child) hfield).1 hinner)
    · intro h
      cases h with
      | scalar h => simp [scalarFact] at h
      | @field _ key child inner hfield hkey h =>
        exact ⟨inner.at key,
          mem_fieldLeaves.2 ⟨key, child, inner, hfield, hkey, (ih (key, child) hfield).2 h, rfl⟩, rfl⟩

/-! ## Pointers -/

theorem nodup_tokens {value : Json} (hwf : value.WF) : ((leaves value).map Leaf.tokens).Nodup := by
  have hat : ∀ (token : String) (l : List Leaf), (l.map Leaf.tokens).Nodup →
      ((l.map (Leaf.at token)).map Leaf.tokens).Nodup := by
    intro token l h
    have hcons : (l.map (Leaf.at token)).map Leaf.tokens =
        (l.map Leaf.tokens).map (token :: ·) := by
      rw [List.map_map, List.map_map]
      rfl
    rw [hcons]
    exact h.map fun a b hab => (List.cons.inj hab).2
  induction value using Json.induction with
  | arr items ih =>
    cases hwf with
    | arr hitems =>
      rw [leaves]
      generalize 0 = start
      induction items generalizing start with
      | nil => simp [itemLeaves]
      | cons c rest ihrest =>
        rw [itemLeaves, List.map_append, List.nodup_append]
        refine ⟨hat _ _ (ih c List.mem_cons_self (hitems c List.mem_cons_self)),
          ihrest (fun j hj => ih j (List.mem_cons_of_mem _ hj))
            (fun j hj => hitems j (List.mem_cons_of_mem _ hj)) (start + 1), ?_⟩
        -- leaves of different items differ in their first token
        intro a ha b hb hab
        obtain ⟨la, hla, rfl⟩ := List.mem_map.1 ha
        obtain ⟨ia, -, rfl⟩ := List.mem_map.1 hla
        obtain ⟨lb, hlb, rfl⟩ := List.mem_map.1 hb
        obtain ⟨index, -, ib, -, -, rfl⟩ := mem_itemLeaves.1 hlb
        have htoken : toString start = toString (start + 1 + index) := (List.cons.inj hab).1
        have := Text.toDigits_inj (by simpa using congrArg String.toList htoken)
        omega
  | obj fields ih =>
    cases hwf with
    | obj hkeys hfields =>
      have hinside : ((fieldLeaves fields).map (Leaf.inside fields)).map Leaf.tokens =
          (fieldLeaves fields).map Leaf.tokens := by
        rw [List.map_map]
        rfl
      rw [leaves, hinside]
      clear hinside
      induction fields with
      | nil => simp [fieldLeaves]
      | cons f rest ihrest =>
        obtain ⟨k, c⟩ := f
        rw [List.map_cons, List.pairwise_cons] at hkeys
        have hrest := ihrest (fun f hf => ih f (List.mem_cons_of_mem _ hf)) hkeys.2
          fun f hf => hfields f (List.mem_cons_of_mem _ hf)
        rw [fieldLeaves]
        by_cases hk : k = "evidence_registry"
        · rw [if_pos hk]
          exact hrest
        · rw [if_neg hk, List.map_append, List.nodup_append]
          refine ⟨hat _ _ (ih (k, c) List.mem_cons_self (hfields _ List.mem_cons_self)), hrest, ?_⟩
          intro a ha b hb hab
          obtain ⟨la, hla, rfl⟩ := List.mem_map.1 ha
          obtain ⟨ia, -, rfl⟩ := List.mem_map.1 hla
          obtain ⟨lb, hlb, rfl⟩ := List.mem_map.1 hb
          obtain ⟨key, child, ib, hmem, -, -, rfl⟩ := mem_fieldLeaves.1 hlb
          have hkey : k = key := (List.cons.inj hab).1
          exact absurd (hkeys.1 key (List.mem_map_of_mem hmem)) (by rw [hkey]; exact lt_irrefl key)
  | _ =>
    simp only [leaves]
    split
    · simp
    · simp

theorem escapePointerChar_inj {c d : Char} {l r : List Char}
    (h : escapePointerChar c ++ l = escapePointerChar d ++ r) : c = d ∧ l = r := by
  unfold escapePointerChar at h
  split_ifs at h <;> simp at h <;> grind

theorem escapePointer_inj {s t : String} (h : escapePointer s = escapePointer t) : s = t := by
  have hchars := String.ofList_injective h
  refine String.toList_injective ?_
  generalize s.toList = l at hchars
  generalize t.toList = r at hchars
  induction l generalizing r with
  | nil =>
    cases r with
    | nil => rfl
    | cons d r =>
      have hne : escapePointerChar d ≠ [] := by unfold escapePointerChar; split_ifs <;> simp
      simp [hne] at hchars
  | cons c l ih =>
    cases r with
    | nil =>
      have hne : escapePointerChar c ≠ [] := by unfold escapePointerChar; split_ifs <;> simp
      simp [hne] at hchars
    | cons d r =>
      rw [List.flatMap_cons, List.flatMap_cons] at hchars
      obtain ⟨rfl, hrest⟩ := escapePointerChar_inj hchars
      rw [ih r hrest]

theorem slash_notMem_escapePointer (s : String) : '/' ∉ (escapePointer s).toList := by
  intro h
  rw [escapePointer, String.toList_ofList, List.mem_flatMap] at h
  obtain ⟨c, -, hc⟩ := h
  unfold escapePointerChar at hc
  split_ifs at hc <;> simp at hc
  rename_i hslash
  exact hslash hc.symm

/-- The digits of an index are not escaped. -/
theorem escapePointer_index (n : ℕ) : escapePointer (toString n) = toString n := by
  refine String.toList_injective ?_
  rw [escapePointer, String.toList_ofList]
  have hdigits : ∀ c ∈ (toString n).toList, escapePointerChar c = [c] := by
    intro c hc
    have hc : c.isDigit := by
      rw [show (toString n).toList = Nat.toDigits 10 n by simp] at hc
      exact Nat.isDigit_of_mem_toDigits (by decide) (by decide) hc
    unfold escapePointerChar
    rw [if_neg (by rintro rfl; exact absurd hc (by decide)),
      if_neg (by rintro rfl; exact absurd hc (by decide))]
  rw [List.flatMap_congr hdigits]
  simp

/-- A pointer text is empty or starts with a slash. -/
theorem toList_pointer (token : String) (tokens : List String) :
    (pointer (token :: tokens)).toList = '/' :: ((escapePointer token).toList ++ (pointer tokens).toList) := by
  simp [pointer]

/-- **Different pointers** have different texts. -/
theorem pointer_inj {tokens tokens' : List String} (h : pointer tokens = pointer tokens') :
    tokens = tokens' := by
  -- the text after a token is empty or starts with a slash, which no token has
  have hcut : ∀ (t t' : String) (l l' : List String),
      (escapePointer t).toList ++ (pointer l).toList = (escapePointer t').toList ++ (pointer l').toList →
      t = t' ∧ pointer l = pointer l' := by
    intro t t' l l' h
    have hnil : (pointer []).toList = [] := rfl
    have ht := slash_notMem_escapePointer t
    have ht' := slash_notMem_escapePointer t'
    cases l with
    | nil =>
      cases l' with
      | nil =>
        rw [hnil, List.append_nil, List.append_nil] at h
        exact ⟨escapePointer_inj (String.toList_injective h), rfl⟩
      | cons u' l' =>
        rw [hnil, List.append_nil, toList_pointer] at h
        exact absurd (h ▸ by simp) ht
    | cons u l =>
      cases l' with
      | nil =>
        rw [hnil, List.append_nil, toList_pointer] at h
        exact absurd (h ▸ by simp) ht'
      | cons u' l' =>
        rw [toList_pointer, toList_pointer] at h
        obtain ⟨htoken, hrest⟩ := Text.cut_inj ht ht' h
        refine ⟨escapePointer_inj (String.toList_injective htoken), String.toList_injective ?_⟩
        rw [toList_pointer, toList_pointer, hrest]
  induction tokens generalizing tokens' with
  | nil =>
    cases tokens' with
    | nil => rfl
    | cons t' l' =>
      have hlist := congrArg String.toList h
      rw [toList_pointer] at hlist
      simp [pointer] at hlist
  | cons t l ih =>
    cases tokens' with
    | nil =>
      have hlist := congrArg String.toList h
      rw [toList_pointer] at hlist
      simp [pointer] at hlist
    | cons t' l' =>
      have hlist := congrArg String.toList h
      rw [toList_pointer, toList_pointer] at hlist
      obtain ⟨rfl, hrest⟩ := hcut t t' l l' (List.cons.inj hlist).2
      rw [ih hrest]

/-! ## Shares -/

mutual
/-- The number of registrable leaves. -/
def leafCount : Json → ℕ
  | .obj fields => leafCountFields fields
  | .arr items => leafCountItems items
  | value => if scalarFact value then 1 else 0
def leafCountFields : List (String × Json) → ℕ
  | [] => 0
  | (key, child) :: rest =>
    if key = "evidence_registry" then leafCountFields rest else leafCount child + leafCountFields rest
def leafCountItems : List Json → ℕ
  | [] => 0
  | child :: rest => leafCount child + leafCountItems rest
end

/-- The share of an item that `rest` items follow, when `n` facts are taken. -/
def shareOf (n rest : ℕ) : ℕ := (maxEvidenceFacts - n) / (rest + 1)

mutual
/-- No item of an array has more leaves than its share, `n` facts being taken before. -/
def fits : Json → ℕ → Bool
  | .obj fields, n => fitsFields fields n
  | .arr items, n => fitsItems items n
  | value, n => n + leafCount value ≤ maxEvidenceFacts
def fitsFields : List (String × Json) → ℕ → Bool
  | [], _ => true
  | (key, child) :: rest, n =>
    if key = "evidence_registry" then fitsFields rest n
    else fits child n && fitsFields rest (n + leafCount child)
def fitsItems : List Json → ℕ → Bool
  | [], _ => true
  | child :: rest, n =>
    fits child n && decide (leafCount child ≤ shareOf n rest.length) &&
      fitsItems rest (n + leafCount child)
end

mutual
/-- How many facts are taken when the items of the arrays get their shares only, `n` facts being
taken before. -/
def spent : Json → ℕ → ℕ
  | .obj fields, n => spentFields fields n
  | .arr items, n => spentItems items n
  | value, n => min (n + leafCount value) maxEvidenceFacts
def spentFields : List (String × Json) → ℕ → ℕ
  | [], n => n
  | (key, child) :: rest, n =>
    if key = "evidence_registry" then spentFields rest n else spentFields rest (spent child n)
def spentItems : List Json → ℕ → ℕ
  | [], n => n
  | child :: rest, n => spentItems rest (min (spent child n) (n + shareOf n rest.length))
end

theorem length_leaves (value : Json) : (leaves value).length = leafCount value := by
  induction value using Json.induction with
  | arr items ih =>
    rw [leaves, leafCount]
    generalize 0 = start
    induction items generalizing start with
    | nil => rfl
    | cons c rest ihrest =>
      rw [itemLeaves, leafCountItems, List.length_append, List.length_map, ih c List.mem_cons_self,
        ihrest (fun j hj => ih j (List.mem_cons_of_mem _ hj))]
  | obj fields ih =>
    rw [leaves, leafCount, List.length_map]
    induction fields with
    | nil => rfl
    | cons f rest ihrest =>
      obtain ⟨k, c⟩ := f
      have hrest := ihrest fun f hf => ih f (List.mem_cons_of_mem _ hf)
      have hchild := ih (k, c) List.mem_cons_self
      rw [fieldLeaves, leafCountFields]
      split
      · exact hrest
      · rw [List.length_append, List.length_map, hrest, hchild]
  | _ =>
    simp only [leaves, leafCount]
    split
    · rfl
    · rfl

/-- What is taken never goes down nor over the limit, and the leaves bound it. -/
theorem spent_bounds (value : Json) : ∀ n ≤ maxEvidenceFacts,
    n ≤ spent value n ∧ spent value n ≤ maxEvidenceFacts ∧ spent value n ≤ n + leafCount value := by
  induction value using Json.induction with
  | arr items ih =>
    simp only [spent, leafCount]
    induction items with
    | nil => intro n hn; simp only [spentItems, leafCountItems]; omega
    | cons c rest ihrest =>
      intro n hn
      obtain ⟨h₁, h₂, h₃⟩ := ih c List.mem_cons_self n hn
      have hshare : shareOf n rest.length ≤ maxEvidenceFacts - n := Nat.div_le_self _ _
      have := ihrest (fun j hj => ih j (List.mem_cons_of_mem _ hj))
        (min (spent c n) (n + shareOf n rest.length)) (by omega)
      simp only [spentItems, leafCountItems]
      omega
  | obj fields ih =>
    simp only [spent, leafCount]
    induction fields with
    | nil => intro n hn; simp only [spentFields, leafCountFields]; omega
    | cons f rest ihrest =>
      intro n hn
      obtain ⟨k, c⟩ := f
      have hrest := ihrest fun f hf => ih f (List.mem_cons_of_mem _ hf)
      obtain ⟨h₁, h₂, h₃⟩ := ih (k, c) List.mem_cons_self n hn
      simp only [spentFields, leafCountFields]
      split
      · exact hrest n hn
      · have := hrest (spent c n) h₂
        dsimp only at h₁ h₃
        omega
  | _ => intro n hn; simp only [spent]; omega

/-- **Nothing is dropped** exactly when everything fits. -/
theorem fits_iff (value : Json) : ∀ n ≤ maxEvidenceFacts,
    (fits value n = true ↔ spent value n = n + leafCount value) := by
  induction value using Json.induction with
  | arr items ih =>
    simp only [fits, spent, leafCount]
    induction items with
    | nil => intro n hn; simp [fitsItems, spentItems, leafCountItems]
    | cons c rest ihrest =>
      intro n hn
      have hchild := spent_bounds c n hn
      have hrest := spent_bounds (.arr rest)
      simp only [spent, leafCount] at hrest
      have hshare : shareOf n rest.length ≤ maxEvidenceFacts - n := Nat.div_le_self _ _
      have hnext : n ≤ min (spent c n) (n + shareOf n rest.length) ∧
        min (spent c n) (n + shareOf n rest.length) ≤ maxEvidenceFacts := by omega
      simp only [fitsItems, spentItems, leafCountItems, Bool.and_eq_true, decide_eq_true_eq,
        ih c List.mem_cons_self n hn]
      constructor
      · rintro ⟨⟨hc, hle⟩, hfits⟩
        rw [hc, min_eq_left (by omega)]
        have := (ihrest (fun j hj => ih j (List.mem_cons_of_mem _ hj)) _ (by omega)).1 hfits
        omega
      · intro h
        have hr := hrest _ hnext.2
        have hc : spent c n = n + leafCount c := by omega
        have hle : leafCount c ≤ shareOf n rest.length := by omega
        refine ⟨⟨hc, hle⟩, (ihrest (fun j hj => ih j (List.mem_cons_of_mem _ hj)) _ (by omega)).2 ?_⟩
        rw [hc, min_eq_left (by omega)] at h
        omega
  | obj fields ih =>
    simp only [fits, spent, leafCount]
    induction fields with
    | nil => intro n hn; simp [fitsFields, spentFields, leafCountFields]
    | cons f rest ihrest =>
      intro n hn
      obtain ⟨k, c⟩ := f
      have ihrest := ihrest fun f hf => ih f (List.mem_cons_of_mem _ hf)
      have hchild := spent_bounds c n hn
      have hrest := spent_bounds (.obj rest)
      simp only [spent, leafCount] at hrest
      simp only [fitsFields, spentFields, leafCountFields]
      split
      · exact ihrest n hn
      · rw [Bool.and_eq_true, ih (k, c) List.mem_cons_self n hn]
        constructor
        · rintro ⟨hc, hfits⟩
          dsimp only at hc
          rw [hc]
          have := (ihrest _ (by omega)).1 hfits
          omega
        · intro h
          have hr := hrest _ hchild.2.1
          have hc : spent c n = n + leafCount c := by omega
          refine ⟨hc, (ihrest _ (by omega)).2 ?_⟩
          rw [hc] at h
          omega
  | _ =>
    intro n hn
    simp only [fits, spent, decide_eq_true_eq]
    omega

/-! ## What is collected -/

/-- The fact of a leaf below `path`. -/
def Leaf.fact (digest : ℕ → String → String) (scope path : String) (inherited : EvidenceMetadata)
    (leaf : Leaf) : EvidenceFact :=
  scalarEvidence digest scope (path ++ pointer leaf.tokens)
    (leaf.enclosing.foldr (fun object metadata => metadata.within object) inherited) leaf.value

theorem fact_at (path token : String) (inherited : EvidenceMetadata) (leaf : Leaf) :
    (leaf.at token).fact digest scope path inherited =
      leaf.fact digest scope (path ++ "/" ++ escapePointer token) inherited := by
  simp only [Leaf.fact, Leaf.at, pointer, List.foldr_cons]
  rw [String.append_assoc, String.append_assoc, String.append_assoc]

theorem fact_inside (path : String) (fields : List (String × Json)) (inherited : EvidenceMetadata)
    (leaf : Leaf) : (leaf.inside fields).fact digest scope path inherited =
      leaf.fact digest scope path (inherited.within fields) := by
  simp only [Leaf.fact, Leaf.inside, List.foldr_append, List.foldr_cons, List.foldr_nil]

/-- The facts after a step are those before it and a part of `all`, `n` of them together. -/
structure Collected (all facts facts' : List EvidenceFact) (n : ℕ) : Prop where
  part : ∃ part, part.Sublist all ∧ facts' = facts ++ part
  length : facts'.length = n

theorem Collected.refl (facts : List EvidenceFact) : Collected [] facts facts facts.length :=
  ⟨⟨[], List.Sublist.refl _, (List.append_nil _).symm⟩, rfl⟩

theorem Collected.nothing {all facts : List EvidenceFact} {n : ℕ} (h : facts.length = n) :
    Collected all facts facts n :=
  ⟨⟨[], List.nil_sublist _, (List.append_nil _).symm⟩, h⟩

theorem Collected.trans {all all' facts facts' facts'' : List EvidenceFact} {n n' : ℕ}
    (h : Collected all facts facts' n) (h' : Collected all' facts' facts'' n') :
    Collected (all ++ all') facts facts'' n' := by
  obtain ⟨part, hpart, rfl⟩ := h.part
  obtain ⟨part', hpart', rfl⟩ := h'.part
  exact ⟨⟨part ++ part', hpart.append hpart', List.append_assoc _ _ _⟩, h'.length⟩

/-- Cutting the facts off keeps a part of them. -/
theorem Collected.take {all facts facts' : List EvidenceFact} {n k : ℕ}
    (h : Collected all facts facts' n) (hk : facts.length ≤ k) :
    Collected all facts (facts'.take k) (min n k) := by
  obtain ⟨part, hpart, rfl⟩ := h.part
  refine ⟨⟨part.take (k - facts.length), (List.take_sublist _ _).trans hpart, ?_⟩, ?_⟩
  · rw [List.take_append, List.take_of_length_le hk]
  · rw [List.length_take, h.length]
    omega

/-- **Collecting** takes a part of the facts of the leaves, as many as the shares allow. -/
theorem collected (value : Json) : ∀ (path : String) (inherited : EvidenceMetadata)
    (facts : List EvidenceFact), facts.length ≤ maxEvidenceFacts →
    Collected ((leaves value).map (Leaf.fact digest scope path inherited)) facts
      (collectEvidenceFacts digest scope value path inherited facts) (spent value facts.length) := by
  -- a full list stays as it is
  have hfull : ∀ (value : Json) (all facts : List EvidenceFact), facts.length = maxEvidenceFacts →
      Collected all facts facts (spent value facts.length) := by
    intro value all facts h
    have := spent_bounds value facts.length (by omega)
    exact .nothing (by omega)
  have hscalar : ∀ value : Json, leafCount value = (if scalarFact value then 1 else 0) →
      leaves value = (if scalarFact value then [⟨[], [], value⟩] else []) →
      (∀ n, spent value n = min (n + leafCount value) maxEvidenceFacts) →
      (∀ path inherited facts, collectEvidenceFacts digest scope value path inherited facts =
        if maxEvidenceFacts ≤ facts.length then facts
        else if scalarFact value then facts ++ [scalarEvidence digest scope path inherited value]
        else facts) →
      ∀ (path : String) (inherited : EvidenceMetadata) (facts : List EvidenceFact),
        facts.length ≤ maxEvidenceFacts →
        Collected ((leaves value).map (Leaf.fact digest scope path inherited)) facts
          (collectEvidenceFacts digest scope value path inherited facts)
          (spent value facts.length) := by
    intro value hcount hleaves hspent hcollect path inherited facts hlen
    rw [hcollect]
    split
    · exact hfull value _ facts (by omega)
    · rw [hspent, hcount, hleaves]
      by_cases hs : scalarFact value = true
      · rw [if_pos hs, if_pos hs, if_pos hs]
        refine ⟨⟨_, List.Sublist.refl _, ?_⟩, ?_⟩
        · simp [Leaf.fact, pointer]
        · rw [List.length_append, List.length_singleton]
          omega
      · rw [if_neg hs, if_neg hs, if_neg hs]
        exact .nothing (by omega)
  induction value using Json.induction with
  | null => exact hscalar .null rfl rfl (fun _ => rfl) fun _ _ _ => rfl
  | bool b => exact hscalar (.bool b) rfl rfl (fun _ => rfl) fun _ _ _ => rfl
  | num n => exact hscalar (.num n) rfl rfl (fun _ => rfl) fun _ _ _ => rfl
  | str s => exact hscalar (.str s) rfl rfl (fun _ => rfl) fun _ _ _ => rfl
  | arr items ih =>
    intro path inherited facts hlen
    rw [collectEvidenceFacts]
    split
    · exact hfull _ _ facts (by omega)
    · rw [leaves, spent]
      generalize 0 = start
      induction items generalizing start facts with
      | nil => exact .refl facts
      | cons c rest ihrest =>
        have hat : (Leaf.fact digest scope path inherited ∘ Leaf.at (toString start)) =
            Leaf.fact digest scope (path ++ "/" ++ toString start) inherited := by
          funext leaf
          rw [Function.comp_apply, fact_at, escapePointer_index]
        have hshare : shareOf facts.length rest.length ≤ maxEvidenceFacts - facts.length :=
          Nat.div_le_self _ _
        have hchild := (ih c List.mem_cons_self (path ++ "/" ++ toString start) inherited facts
          hlen).take (k := facts.length + shareOf facts.length rest.length) (by omega)
        rw [itemLeaves, spentItems, collectItems, List.map_append, List.map_map, hat,
          ← hchild.length]
        rw [show min (facts.length + (maxEvidenceFacts - facts.length) / (rest.length + 1))
          maxEvidenceFacts = facts.length + shareOf facts.length rest.length from
            min_eq_left (by unfold shareOf at hshare; omega)]
        refine hchild.trans ?_
        have hlen' := hchild.length
        split
        · exact hfull (.arr rest) _ _ (by omega)
        · exact ihrest (fun j hj => ih j (List.mem_cons_of_mem _ hj)) _ (by omega) ‹_› (start + 1)
  | obj fields ih =>
    intro path inherited facts hlen
    rw [collectEvidenceFacts]
    split
    · exact hfull _ _ facts (by omega)
    · rw [leaves, spent, List.map_map]
      have hinside : (Leaf.fact digest scope path inherited ∘ Leaf.inside fields) =
          Leaf.fact digest scope path (inherited.within fields) :=
        funext fun leaf => fact_inside path fields inherited leaf
      rw [hinside]
      clear hinside
      generalize inherited.within fields = metadata
      induction fields generalizing facts with
      | nil => exact .refl facts
      | cons f rest ihrest =>
        obtain ⟨key, c⟩ := f
        have ihrest := ihrest fun f hf => ih f (List.mem_cons_of_mem _ hf)
        rw [fieldLeaves, spentFields, collectFields]
        by_cases hkey : key = "evidence_registry"
        · rw [if_pos hkey, if_pos hkey, if_pos hkey]
          exact ihrest facts hlen ‹_›
        · have hat : (Leaf.fact digest scope path metadata ∘ Leaf.at key) =
              Leaf.fact digest scope (path ++ "/" ++ escapePointer key) metadata :=
            funext fun leaf => fact_at path key metadata leaf
          have hchild := ih (key, c) List.mem_cons_self (path ++ "/" ++ escapePointer key) metadata
            facts hlen
          have hlen' := hchild.length
          have hbound := spent_bounds c facts.length hlen
          rw [if_neg hkey, if_neg hkey, if_neg hkey, List.map_append, List.map_map, hat]
          dsimp only at hchild hlen' ⊢
          rw [← hlen']
          rw [← hlen'] at hchild
          refine hchild.trans ?_
          split
          · exact hfull (.obj rest) _ _ (by omega)
          · exact ihrest _ (by omega) ‹_›

/-! ## Identifiers -/

theorem LeafAt.scalarFact {value : Json} {leaf : Leaf} (h : LeafAt value leaf) :
    scalarFact leaf.value = true := by
  induction h with
  | scalar h => exact h
  | field _ _ _ ih => exact ih
  | item _ _ ih => exact ih

theorem LeafAt.wf {value : Json} {leaf : Leaf} (h : LeafAt value leaf) (hwf : value.WF) :
    leaf.value.WF := by
  induction h with
  | scalar _ => exact hwf
  | field hfield _ _ ih =>
    cases hwf with
    | obj _ hfields => exact ih (hfields _ hfield)
  | item hitem _ ih =>
    cases hwf with
    | arr hitems => exact ih (hitems _ (List.mem_of_getElem? hitem))

theorem isScalar_of_scalarFact {value : Json} (h : scalarFact value = true) :
    value.isScalar = true := by
  cases value <;> simp_all [scalarFact, Json.isScalar]

/-- **Two leaves** of a payload never share an identifier. -/
theorem nodup_evidenceId (hdigest : Function.Injective (digest 24)) {payload : Json}
    (hwf : payload.WF) (path : String) (inherited : EvidenceMetadata) :
    (((leaves payload).map (Leaf.fact digest scope path inherited)).map
      EvidenceFact.evidenceId).Nodup := by
  have htokens := nodup_tokens hwf
  rw [List.map_map]
  refine List.Nodup.map_on (fun a ha b hb hab => ?_) (List.Nodup.of_map _ htokens)
  have hkinds : ∀ leaf ∈ leaves payload, leaf.value.isScalar = true ∧ leaf.value.WF := by
    intro leaf hleaf
    have hat := mem_leaves.1 hleaf
    exact ⟨isScalar_of_scalarFact hat.scalarFact, hat.wf hwf⟩
  obtain ⟨hsa, hwa⟩ := hkinds a ha
  obtain ⟨hsb, hwb⟩ := hkinds b hb
  -- the hashed texts agree, so the pointers in front of the values do
  have htext : scope ++ "|" ++ (path ++ pointer a.tokens) ++ "|" ++ a.value.toText =
      scope ++ "|" ++ (path ++ pointer b.tokens) ++ "|" ++ b.value.toText :=
    hdigest (Text.append_left_inj hab)
  have hlist := congrArg String.toList htext
  simp only [String.toList_append, Json.toText, String.toList_ofList, List.append_assoc,
    List.append_cancel_left_eq] at hlist
  have hpointer := Json.bar_chars_inj hsa hwa hsb hwb (l := (pointer a.tokens).toList)
    (r := (pointer b.tokens).toList) (by simpa using hlist)
  exact List.inj_on_of_nodup_map htokens ha hb (pointer_inj (String.toList_injective hpointer))

theorem foldr_within (enclosing : List (List (String × Json))) :
    enclosing.foldr (fun object metadata => metadata.within object) {} = metadataAt enclosing := by
  induction enclosing with
  | nil => rfl
  | cons object rest ih =>
    rw [List.foldr_cons, ih]
    simp only [EvidenceMetadata.within, metadataAt, List.findSome?_cons, List.any_cons]
    congr 1
    · cases metadataText object sourceKeys <;> rfl
    · cases metadataText object observedKeys <;> rfl
    · cases metadataText object versionKeys <;> rfl
    · rw [Bool.or_assoc, Bool.or_comm]

theorem fact_describes (leaf : Leaf) : Describes (leaf.fact digest scope "" {}) leaf where
  path := String.empty_append
  value := rfl
  source := by simp only [Leaf.fact, scalarEvidence, foldr_within]
  observedAt := by simp only [Leaf.fact, scalarEvidence, foldr_within]
  sourceVersionId := fun version h => by
    simp only [Leaf.fact, scalarEvidence, foldr_within, h, Option.some_or]
  qualityBlocking := by simp only [Leaf.fact, scalarEvidence, foldr_within]

/-! ## Attaching again -/

theorem metadataText_setField (v : Json) (root : List (String × Json)) {keys : List String}
    (h : "evidence_registry" ∉ keys) :
    metadataText (Json.setField "evidence_registry" v root) keys = metadataText root keys := by
  unfold metadataText
  induction keys with
  | nil => rfl
  | cons key rest ih =>
    rw [List.mem_cons, not_or] at h
    rw [List.findSome?_cons, List.findSome?_cons, Json.lookup_setField_of_ne (Ne.symm h.1), ih h.2]

theorem within_setField (inherited : EvidenceMetadata) (v : Json) (root : List (String × Json)) :
    inherited.within (Json.setField "evidence_registry" v root) = inherited.within root := by
  unfold EvidenceMetadata.within flag
  rw [metadataText_setField v root (by decide), metadataText_setField v root (by decide),
    metadataText_setField v root (by decide), Json.lookup_setField_of_ne (by decide),
    Json.lookup_setField_of_ne (by decide)]

/-- The field of the registry is passed over. -/
theorem collectFields_setField (v : Json) (path : String) (metadata : EvidenceMetadata)
    (root : List (String × Json)) : ∀ facts,
    collectFields digest scope (Json.setField "evidence_registry" v root) path metadata facts =
      collectFields digest scope root path metadata facts := by
  induction root with
  | nil => intro facts; simp [Json.setField, collectFields]
  | cons f rest ih =>
    intro facts
    obtain ⟨k, w⟩ := f
    unfold Json.setField
    split
    · rename_i hk
      rw [collectFields, if_pos rfl, collectFields, if_pos hk.symm]
    · split
      · rw [collectFields, if_pos rfl]
      · rename_i hk _
        rw [collectFields, if_neg (Ne.symm hk), collectFields, if_neg (Ne.symm hk)]
        simp only [ih]

theorem setField_setField (key : String) (v : Json) (root : List (String × Json)) :
    Json.setField key v (Json.setField key v root) = Json.setField key v root := by
  induction root with
  | nil => simp [Json.setField]
  | cons f rest ih =>
    obtain ⟨k, w⟩ := f
    by_cases hk : key = k
    · simp [Json.setField, hk]
    · by_cases hlt : key < k
      · simp [Json.setField, hk, hlt]
      · simp [Json.setField, hk, hlt, ih]

theorem evidenceRegistry_attached (root : List (String × Json)) (v : Json) :
    evidenceRegistry digest scope (.obj (Json.setField "evidence_registry" v root)) =
      evidenceRegistry digest scope (.obj root) := by
  unfold evidenceRegistry
  rw [collectEvidenceFacts, collectEvidenceFacts]
  simp only [within_setField, collectFields_setField]

/-! ## Every loss is declared -/

/-- The registry of an object: bounded, true to the payload, and complete unless it says not. -/
structure DeclaresLosses (digest : ℕ → String → String) (scope : String) (payload : Json) :
    Prop where
  attached : (attachEvidenceRegistry digest scope payload).get? "evidence_registry" =
    some (evidenceRegistry digest scope payload).toJson
  bounded : (evidenceRegistry digest scope payload).facts.length ≤ maxEvidenceFacts
  distinct : ((evidenceRegistry digest scope payload).facts.map EvidenceFact.evidenceId).Nodup
  described : ∀ fact ∈ (evidenceRegistry digest scope payload).facts,
    ∃ leaf, LeafAt payload leaf ∧ Describes fact leaf
  declared : (evidenceRegistry digest scope payload).truncated = false →
    ∀ leaf, LeafAt payload leaf →
      ∃ fact ∈ (evidenceRegistry digest scope payload).facts, Describes fact leaf
  stable : attachEvidenceRegistry digest scope (attachEvidenceRegistry digest scope payload) =
    attachEvidenceRegistry digest scope payload

theorem evidenceRegistry_facts (digest : ℕ → String → String) (scope : String) (payload : Json) :
    (evidenceRegistry digest scope payload).facts.Sublist
        ((leaves payload).map (Leaf.fact digest scope "" {})) ∧
      (evidenceRegistry digest scope payload).facts.length = spent payload 0 := by
  have h : Collected ((leaves payload).map (Leaf.fact digest scope "" {})) []
      (collectEvidenceFacts digest scope payload "" {} []) (spent payload 0) :=
    collected payload "" {} [] (Nat.zero_le _)
  obtain ⟨part, hpart, hfacts⟩ := h.part
  rw [List.nil_append] at hfacts
  have heq : (evidenceRegistry digest scope payload).facts = part := hfacts
  exact ⟨heq ▸ hpart, h.length⟩

theorem truncated_iff (digest : ℕ → String → String) (scope : String) (payload : Json) :
    (evidenceRegistry digest scope payload).truncated = true ↔ spent payload 0 = maxEvidenceFacts := by
  rw [← (evidenceRegistry_facts digest scope payload).2]
  exact decide_eq_true_iff

/-- When every leaf has its fact, none was dropped. -/
theorem leafCount_le_spent {payload : Json} (hwf : payload.WF)
    (h : ∀ leaf, LeafAt payload leaf →
      ∃ fact ∈ (evidenceRegistry digest scope payload).facts, Describes fact leaf) :
    leafCount payload ≤ spent payload 0 := by
  have hpaths : ((leaves payload).map fun leaf => pointer leaf.tokens).Nodup := by
    have := (nodup_tokens hwf).map (fun _ _ => pointer_inj)
    rwa [List.map_map] at this
  have hsubset : ((leaves payload).map fun leaf => pointer leaf.tokens) ⊆
      (evidenceRegistry digest scope payload).facts.map EvidenceFact.path := by
    intro path hpath
    obtain ⟨leaf, hleaf, rfl⟩ := List.mem_map.1 hpath
    obtain ⟨fact, hfact, hdescribes⟩ := h leaf (mem_leaves.1 hleaf)
    exact hdescribes.path ▸ List.mem_map_of_mem hfact
  have hlength := (List.subperm_of_subset hpaths hsubset).length_le
  rw [List.length_map, List.length_map, length_leaves, (evidenceRegistry_facts _ _ _).2] at hlength
  exact hlength

/-- **Every loss is declared** exactly when no item of an array has more leaves than its share,
or the shares use up the registry. -/
theorem evidenceRegistry_declares (hdigest : Function.Injective (digest 24)) {payload : Json}
    (hwf : payload.WF) : (payload.isObject = true → DeclaresLosses digest scope payload) ↔
      (payload.isObject = true → fits payload 0 = true ∨ spent payload 0 = maxEvidenceFacts) := by
  obtain ⟨hpart, hlength⟩ := evidenceRegistry_facts digest scope payload
  have hbounds := spent_bounds payload 0 (Nat.zero_le _)
  have hfits := fits_iff payload 0 (Nat.zero_le _)
  refine forall_congr' fun hobject => ⟨fun h => ?_, fun h => ?_⟩
  · by_cases hfull : spent payload 0 = maxEvidenceFacts
    · exact .inr hfull
    · refine .inl (hfits.2 ?_)
      have hcomplete := h.declared (by
        rw [← Bool.not_eq_true, truncated_iff]
        exact hfull)
      have := leafCount_le_spent hwf hcomplete
      omega
  · obtain ⟨root, rfl⟩ : ∃ root, payload = .obj root := by
      cases payload <;> simp [Json.isObject] at hobject
      exact ⟨_, rfl⟩
    refine ⟨?_, by omega, ?_, fun fact hfact => ?_, fun hdeclared leaf hleaf => ?_, ?_⟩
    · exact Json.lookup_setField_same _ _ _
    · exact (nodup_evidenceId hdigest hwf "" {}).sublist (hpart.map _)
    · obtain ⟨leaf, hleaf, rfl⟩ := List.mem_map.1 (hpart.subset hfact)
      exact ⟨leaf, mem_leaves.1 hleaf, fact_describes leaf⟩
    · -- the registry is not full, so every item fitted and nothing was dropped
      have hnotfull : spent (.obj root) 0 ≠ maxEvidenceFacts := by
        rw [← Bool.not_eq_true, truncated_iff] at hdeclared
        exact hdeclared
      have hall := hfits.1 (h.resolve_right hnotfull)
      have heq := hpart.eq_of_length (by rw [hlength, List.length_map, length_leaves]; omega)
      refine ⟨leaf.fact digest scope "" {}, ?_, fact_describes leaf⟩
      rw [heq]
      exact List.mem_map_of_mem (mem_leaves.2 hleaf)
    · simp only [attachEvidenceRegistry]
      rw [evidenceRegistry_attached, setField_setField]

def pricePayload : Json :=
  .obj [("dataset", .obj [("blocking", .bool true), ("price", .num (.float "12.34"))]),
    ("source", .str "provider-a")]

/-- The digests of the texts below; every other text stands for its own. -/
def priceDigest (_ : ℕ) : String → String :=
  (Equiv.swap "test|/dataset/blocking|true" "90965d1d76ef9b146e758d03").trans
    ((Equiv.swap "test|/dataset/price|12.34" "b2fd893d595c6865bb675d0c").trans
      (Equiv.swap "test|/source|\"provider-a\"" "f165a9afa97e9776bbec3344"))

theorem pricePayload_declared : DeclaresLosses priceDigest "test" pricePayload := by
  have hinj : Function.Injective (priceDigest 24) := Equiv.injective _
  refine (evidenceRegistry_declares hinj (.obj (by decide) fun f hf => ?_)).2
    (fun _ => .inl (by decide +kernel)) rfl
  simp only [List.mem_cons, List.not_mem_nil, or_false] at hf
  rcases hf with rfl | rfl
  · refine .obj (by decide) fun f hf => ?_
    simp only [List.mem_cons, List.not_mem_nil, or_false] at hf
    rcases hf with rfl | rfl
    · exact .bool true
    · exact .num (by unfold Json.Number.WF; decide)
  · exact .str _

/-- A hundred series, the first of them with one value more than its share of the registry. -/
def unevenSeries : Json :=
  .obj [("series", .arr (.arr (List.replicate 31 (.num (.posInt 1))) ::
    List.replicate 99 (.arr [.num (.posInt 1)])))]

/-- A leaf of the first series is dropped, and the registry is not full. -/
theorem unevenSeries_undeclared :
    unevenSeries.WF ∧ unevenSeries.isObject = true ∧
      ∀ (digest : ℕ → String → String) (scope : String),
        ¬ DeclaresLosses digest scope unevenSeries := by
  have hone : (Json.num (.posInt 1)).WF := .num trivial
  have hwf : unevenSeries.WF := by
    refine .obj (by decide) fun f hf => ?_
    obtain rfl := List.mem_singleton.1 hf
    refine .arr fun j hj => ?_
    rcases List.mem_cons.1 hj with rfl | hj
    · exact .arr fun j hj => (List.eq_of_mem_replicate hj) ▸ hone
    · rw [List.eq_of_mem_replicate hj]
      exact .arr fun j hj => (List.mem_singleton.1 hj) ▸ hone
  have hspent : spent unevenSeries 0 = 129 := by decide +kernel
  have hcount : leafCount unevenSeries = 130 := by decide
  refine ⟨hwf, rfl, fun digest scope h => ?_⟩
  have hcomplete := h.declared (by
    rw [← Bool.not_eq_true, truncated_iff, hspent]
    decide)
  have := leafCount_le_spent hwf hcomplete
  omega

end Astock
