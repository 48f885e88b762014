import Astock.Lib.Text

/-!
# JSON documents

`Json` is a JSON document as `serde_json::Value` holds it, `Json.toText` its
compact text (`serde_json::to_string`), and `Json.get` / `Json.set` the two
directions of indexing by a key: reading a missing key gives `null`, writing one
inserts it, and writing into anything but an object or `null` panics.

* `get_set_same`, `get_set_of_ne`: writing a key sets it and no other key.
* `Json.WF`: what the types of `serde_json` guarantee of a document.
* `bar_chars_inj`: the text of a scalar can be cut off at the last bar in front of it.
* `DecidableEq Json`: two documents are equal exactly when their texts are
  compared equal by the code.
-/

/-- A JSON number: a `u64`, a negative integer `-(n + 1)`, or a finite `f64`,
given by the shortest decimal text that denotes it. -/
inductive Number where
  | posInt (n : ℕ)
  | negInt (n : ℕ)
  | float (text : String)
  deriving DecidableEq, Repr

/-- A JSON document. The fields of an object are in key order, each key once. -/
inductive Json where
  | null
  | bool (b : Bool)
  | num (n : Number)
  | str (s : String)
  | arr (items : List Json)
  | obj (fields : List (String × Json))
  deriving Repr

namespace Json

/-- **Induction** on a document, with the claim for every item and every field value. -/
@[elab_as_elim]
theorem induction {motive : Json → Prop} (null : motive .null) (bool : ∀ b, motive (.bool b))
    (num : ∀ n, motive (.num n)) (str : ∀ s, motive (.str s))
    (arr : ∀ items, (∀ j ∈ items, motive j) → motive (.arr items))
    (obj : ∀ fields : List (String × Json), (∀ f ∈ fields, motive f.2) → motive (.obj fields)) :
    ∀ j, motive j
  | .null => null
  | .bool b => bool b
  | .num n => num n
  | .str s => str s
  | .arr items => arr items fun j _ => induction null bool num str arr obj j
  | .obj fields => obj fields fun f _ => induction null bool num str arr obj f.2
termination_by j => sizeOf j
decreasing_by
  · rename_i hj
    have := List.sizeOf_lt_of_mem hj
    simp only [Json.arr.sizeOf_spec]
    omega
  · rename_i f hf
    have hfield := List.sizeOf_lt_of_mem hf
    have hvalue : sizeOf f.2 < sizeOf f := by
      rw [show sizeOf f = 1 + sizeOf f.1 + sizeOf f.2 from rfl]
      omega
    simp only [Json.obj.sizeOf_spec]
    omega

/-- The text of a float has no characters but those of a decimal number. -/
def Number.WF : Number → Prop
  | .float text => ∀ c ∈ text.toList, c.isDigit ∨ c ∈ ['.', '-', '+', 'e', 'E']
  | _ => True

/-- A document as `serde_json` can hold it. -/
inductive WF : Json → Prop
  | null : WF .null
  | bool (b : Bool) : WF (.bool b)
  | num {n : Number} (h : Number.WF n) : WF (.num n)
  | str (s : String) : WF (.str s)
  | arr {items : List Json} (h : ∀ j ∈ items, WF j) : WF (.arr items)
  | obj {fields : List (String × Json)} (hkeys : (fields.map Prod.fst).Pairwise (· < ·))
      (h : ∀ f ∈ fields, WF f.2) : WF (.obj fields)

/-! ## Equality -/

mutual
/-- Equality of documents. -/
def beq : Json → Json → Bool
  | .null, .null => true
  | .bool a, .bool b => a == b
  | .num a, .num b => decide (a = b)
  | .str a, .str b => decide (a = b)
  | .arr a, .arr b => beqItems a b
  | .obj a, .obj b => beqFields a b
  | _, _ => false
/-- Equality of arrays, item by item. -/
def beqItems : List Json → List Json → Bool
  | [], [] => true
  | a :: as, b :: bs => beq a b && beqItems as bs
  | _, _ => false
/-- Equality of objects, field by field. -/
def beqFields : List (String × Json) → List (String × Json) → Bool
  | [], [] => true
  | (k, a) :: as, (l, b) :: bs => decide (k = l) && beq a b && beqFields as bs
  | _, _ => false
end

mutual
theorem beq_iff : ∀ a b : Json, beq a b = true ↔ a = b
  | a, b => by
    cases a <;> cases b <;> simp [beq]
    case arr.arr as bs => exact beqItems_iff as bs
    case obj.obj as bs => exact beqFields_iff as bs
theorem beqItems_iff : ∀ as bs : List Json, beqItems as bs = true ↔ as = bs
  | [], [] => by simp [beqItems]
  | [], _ :: _ => by simp [beqItems]
  | _ :: _, [] => by simp [beqItems]
  | a :: as, b :: bs => by simp [beqItems, beq_iff a b, beqItems_iff as bs]
theorem beqFields_iff : ∀ as bs : List (String × Json), beqFields as bs = true ↔ as = bs
  | [], [] => by simp [beqFields]
  | [], _ :: _ => by simp [beqFields]
  | _ :: _, [] => by simp [beqFields]
  | (k, a) :: as, (l, b) :: bs => by
    simp [beqFields, beq_iff a b, beqFields_iff as bs]
end

instance : DecidableEq Json := fun a b => decidable_of_iff _ (beq_iff a b)

/-! ## Text -/

/-- A character inside a JSON string literal. -/
def escapeChar (c : Char) : List Char :=
  if c = '"' then ['\\', '"']
  else if c = '\\' then ['\\', '\\']
  else if c.toNat = 8 then ['\\', 'b']
  else if c.toNat = 9 then ['\\', 't']
  else if c.toNat = 10 then ['\\', 'n']
  else if c.toNat = 12 then ['\\', 'f']
  else if c.toNat = 13 then ['\\', 'r']
  else if c.toNat < 0x20 then
    ['\\', 'u', '0', '0', Nat.digitChar (c.toNat / 16), Nat.digitChar (c.toNat % 16)]
  else [c]

/-- A JSON string literal. -/
def quote (s : String) : List Char := '"' :: s.toList.flatMap escapeChar ++ ['"']

def Number.chars : Number → List Char
  | .posInt n => Nat.toDigits 10 n
  | .negInt n => '-' :: Nat.toDigits 10 (n + 1)
  | .float text => text.toList

mutual
/-- The characters of the compact text of a document. -/
def chars : Json → List Char
  | .null => ['n', 'u', 'l', 'l']
  | .bool true => ['t', 'r', 'u', 'e']
  | .bool false => ['f', 'a', 'l', 's', 'e']
  | .num n => Number.chars n
  | .str s => quote s
  | .arr items => '[' :: charsItems items ++ [']']
  | .obj fields => '{' :: charsFields fields ++ ['}']
def charsItems : List Json → List Char
  | [] => []
  | [j] => chars j
  | j :: js => chars j ++ ',' :: charsItems js
def charsFields : List (String × Json) → List Char
  | [] => []
  | [(k, j)] => quote k ++ ':' :: chars j
  | (k, j) :: js => quote k ++ ':' :: chars j ++ ',' :: charsFields js
end

/-- `serde_json::to_string`. -/
def toText (j : Json) : String := String.ofList (chars j)

/-- The bytes of the text of a document (`to_string(..).len()`). -/
def textLen (j : Json) : ℕ := ((chars j).map Char.utf8Size).sum

/-! ## Indexing -/

/-- `value[key]` as a value: `null` when there is no such field. -/
def get (j : Json) (key : String) : Json :=
  match j with
  | .obj fields => (fields.lookup key).getD .null
  | _ => .null

/-- `Value::get(key)`. -/
def get? (j : Json) (key : String) : Option Json :=
  match j with
  | .obj fields => fields.lookup key
  | _ => none

/-- Insert a field in key order, over the field of that key. -/
def setField (key : String) (v : Json) : List (String × Json) → List (String × Json)
  | [] => [(key, v)]
  | (k, w) :: rest =>
    if key = k then (key, v) :: rest
    else if key < k then (key, v) :: (k, w) :: rest
    else (k, w) :: setField key v rest

/-- `value[key] = v`: `null` becomes an object, and any other document that is
not an object makes the assignment panic (`none`). -/
def set (j : Json) (key : String) (v : Json) : Option Json :=
  match j with
  | .obj fields => some (.obj (setField key v fields))
  | .null => some (.obj [(key, v)])
  | _ => none

/-- `json!({ .. })` and `Map::insert` in order. -/
def ofFields (fields : List (String × Json)) : Json :=
  .obj (fields.foldl (fun acc f => setField f.1 f.2 acc) [])

def asStr : Json → Option String
  | .str s => some s
  | _ => none

def asArray : Json → Option (List Json)
  | .arr items => some items
  | _ => none

def asBool : Json → Option Bool
  | .bool b => some b
  | _ => none

/-- `Value::as_i64`. -/
def asI64 : Json → Option ℤ
  | .num (.posInt n) => if n < 2 ^ 63 then some n else none
  | .num (.negInt n) => some (-(n + 1 : ℤ))
  | _ => none

/-- `Value::as_u64`. -/
def asU64 : Json → Option ℕ
  | .num (.posInt n) => some n
  | _ => none

/-- `Value::from` on an integer. -/
def ofInt (i : ℤ) : Json :=
  match i with
  | .ofNat n => .num (.posInt n)
  | .negSucc n => .num (.negInt n)

def ofNat (n : ℕ) : Json := .num (.posInt n)

/-! ## Decoding -/

/-- A required field. -/
def field {α : Type} (j : Json) (key : String) (decode : Json → Option α) : Option α :=
  (j.get? key).bind decode

/-- A field with `#[serde(default)]`. -/
def fieldOr {α : Type} (j : Json) (key : String) (default : α) (decode : Json → Option α) : Option α :=
  match j.get? key with
  | none => some default
  | some v => decode v

/-- An `Option`, whose `None` is `null`. -/
def nullable {α : Type} (decode : Json → Option α) : Json → Option (Option α)
  | .null => some none
  | v => (decode v).map some

/-- A `Vec`. -/
def listOf {α : Type} (decode : Json → Option α) : Json → Option (List α)
  | .arr items => items.mapM decode
  | _ => none

/-- `#[serde(deny_unknown_fields)]`. -/
def knows (keys : List String) : Json → Bool
  | .obj fields => fields.all fun f => f.1 ∈ keys
  | _ => false

/-- The type of a document, as `serde_json` names it. -/
def typeName : Json → String
  | .null => "null"
  | .bool _ => "boolean"
  | .num _ => "number"
  | .str _ => "string"
  | .arr _ => "array"
  | .obj _ => "object"

def isObject : Json → Bool
  | .obj _ => true
  | _ => false

/-- An `Option<String>` as JSON. -/
def ofOption (f : α → Json) : Option α → Json
  | some a => f a
  | none => .null

theorem lookup_setField_same (key : String) (v : Json) (fields : List (String × Json)) :
    (setField key v fields).lookup key = some v := by
  induction fields with
  | nil => simp [setField]
  | cons f rest ih =>
    obtain ⟨k, w⟩ := f
    unfold setField
    split
    · simp
    · split
      · simp
      · rename_i hne _
        rw [List.lookup_cons, beq_eq_false_iff_ne.2 hne]
        exact ih

theorem lookup_setField_of_ne {key other : String} (h : other ≠ key) (v : Json)
    (fields : List (String × Json)) :
    (setField key v fields).lookup other = fields.lookup other := by
  have hb : (other == key) = false := beq_eq_false_iff_ne.2 h
  induction fields with
  | nil => simp [setField, List.lookup_cons, hb]
  | cons f rest ih =>
    obtain ⟨k, w⟩ := f
    unfold setField
    split
    · rename_i hk; subst hk; simp [List.lookup_cons, hb]
    · split
      · rw [List.lookup_cons, hb]
      · rw [List.lookup_cons, List.lookup_cons, ih]

theorem lookup_eq_none_of_notMem {β : Type} {key : String} :
    ∀ {fields : List (String × β)}, key ∉ fields.map Prod.fst → fields.lookup key = none
  | [], _ => rfl
  | (k, _) :: rest, h => by
    rw [List.map_cons, List.mem_cons, not_or] at h
    rw [List.lookup_cons, beq_eq_false_iff_ne.2 h.1]
    exact lookup_eq_none_of_notMem h.2

theorem lookup_foldl_setField (key : String) :
    ∀ (fields : List (String × Json)), (fields.map Prod.fst).Nodup → ∀ acc : List (String × Json),
      (fields.foldl (fun acc f => setField f.1 f.2 acc) acc).lookup key =
        (fields.lookup key).or (acc.lookup key) := by
  intro fields
  induction fields with
  | nil => intro _ acc; simp
  | cons f rest ih =>
    intro hd acc
    obtain ⟨k, v⟩ := f
    rw [List.map_cons, List.nodup_cons] at hd
    rw [List.foldl_cons, ih hd.2, List.lookup_cons]
    by_cases hk : key = k
    · subst hk
      simp [lookup_eq_none_of_notMem hd.1, lookup_setField_same]
    · rw [lookup_setField_of_ne hk, beq_eq_false_iff_ne.2 hk]

/-- **Reading a literal object.** -/
theorem get_ofFields {fields : List (String × Json)} (hd : (fields.map Prod.fst).Nodup)
    (key : String) : (ofFields fields).get key = (fields.lookup key).getD .null := by
  simp only [ofFields, get]
  rw [lookup_foldl_setField key fields hd]
  simp

theorem get?_ofFields {fields : List (String × Json)} (hd : (fields.map Prod.fst).Nodup)
    (key : String) : (ofFields fields).get? key = fields.lookup key := by
  simp only [ofFields, get?]
  rw [lookup_foldl_setField key fields hd]
  simp

/-- **Decoding a list** that was encoded item by item. -/
theorem listOf_map {α : Type} {encode : α → Json} {decode : Json → Option α}
    (h : ∀ a, decode (encode a) = some a) (l : List α) :
    listOf decode (.arr (l.map encode)) = some l := by
  have hmap : (l.map encode).mapM decode = some l := by
    induction l with
    | nil => rfl
    | cons a rest ih => rw [List.map_cons, List.mapM_cons, h, ih]; rfl
  exact hmap

theorem mapM_take {α β : Type} {f : α → Option β} {l : List α} {r : List β} (h : l.mapM f = some r)
    (n : ℕ) : (l.take n).mapM f = some (r.take n) := by
  induction l generalizing r n with
  | nil =>
    obtain rfl := Option.some.inj h
    simp
  | cons a rest ih =>
    rw [List.mapM_cons] at h
    obtain ⟨b, hb, h⟩ := Option.bind_eq_some_iff.1 h
    obtain ⟨bs, hbs, h⟩ := Option.bind_eq_some_iff.1 h
    obtain rfl := Option.some.inj h
    cases n with
    | zero => rfl
    | succ n =>
      rw [List.take_succ_cons, List.mapM_cons, hb, ih hbs n]
      rfl

/-- The keys of a literal object. -/
theorem knows_ofFields {fields : List (String × Json)} {keys : List String}
    (h : ∀ f ∈ fields, f.1 ∈ keys) : (ofFields fields).knows keys = true := by
  have hset : ∀ (l acc : List (String × Json)), (∀ f ∈ l, f.1 ∈ keys) → (∀ f ∈ acc, f.1 ∈ keys) →
      ∀ f ∈ l.foldl (fun acc f => setField f.1 f.2 acc) acc, f.1 ∈ keys := by
    have hone : ∀ (key : String) (v : Json) (acc : List (String × Json)), key ∈ keys →
        (∀ f ∈ acc, f.1 ∈ keys) → ∀ f ∈ setField key v acc, f.1 ∈ keys := by
      intro key v acc hkey
      induction acc with
      | nil => intro _ f hf; rw [List.mem_singleton.1 hf]; exact hkey
      | cons a rest ih =>
        intro hacc f hf
        unfold setField at hf
        split_ifs at hf
        · rcases List.mem_cons.1 hf with rfl | hf
          · exact hkey
          · exact hacc f (List.mem_cons_of_mem _ hf)
        · rcases List.mem_cons.1 hf with rfl | hf
          · exact hkey
          · exact hacc f hf
        · rcases List.mem_cons.1 hf with rfl | hf
          · exact hacc _ List.mem_cons_self
          · exact ih (fun f hf => hacc f (List.mem_cons_of_mem _ hf)) f hf
    intro l
    induction l with
    | nil => exact fun acc _ hacc => hacc
    | cons a rest ih =>
      intro acc hl hacc
      exact ih _ (fun f hf => hl f (List.mem_cons_of_mem _ hf))
        (hone a.1 a.2 acc (hl a List.mem_cons_self) hacc)
  simp only [ofFields, knows, List.all_eq_true, decide_eq_true_eq]
  exact hset fields [] h (by simp)

/-- An integer that was read as an `i64` is read back from its own literal. -/
theorem asI64_ofInt {j : Json} {i : ℤ} (h : j.asI64 = some i) : (ofInt i).asI64 = some i := by
  cases j with
  | num n =>
    cases n with
    | posInt n =>
      simp only [asI64] at h
      split at h
      · rename_i hn
        obtain rfl := Option.some.inj h
        show (if n < 2 ^ 63 then some (n : ℤ) else none) = _
        rw [if_pos hn]
      · simp at h
    | negInt n =>
      simp only [asI64, Option.some.injEq] at h
      subst h
      rw [show (-(n + 1 : ℤ)) = Int.negSucc n by omega]
      simp [ofInt, asI64, Int.negSucc_eq]
    | float t => simp [asI64] at h
  | _ => simp [asI64] at h

/-- **Writing a key sets it.** -/
theorem get_set_same {j j' : Json} {key : String} {v : Json} (h : j.set key v = some j') :
    j'.get key = v := by
  cases j with
  | null => simp only [set, Option.some.injEq] at h; subst h; simp [get]
  | obj fields =>
    simp only [set, Option.some.injEq] at h; subst h
    simp [get, lookup_setField_same]
  | _ => simp [set] at h

/-- **Writing a key leaves every other key as it was.** -/
theorem get_set_of_ne {j j' : Json} {key other : String} {v : Json} (hne : other ≠ key)
    (h : j.set key v = some j') : j'.get other = j.get other := by
  cases j with
  | null =>
    simp only [set, Option.some.injEq] at h; subst h
    simp [get, List.lookup_cons, beq_eq_false_iff_ne.2 hne]
  | obj fields =>
    simp only [set, Option.some.injEq] at h; subst h
    simp [get, lookup_setField_of_ne hne]
  | _ => simp [set] at h

/-! ## The texts of scalars -/

/-- A document that is not a container and not `null`. -/
def isScalar : Json → Bool
  | .bool _ | .num _ | .str _ => true
  | _ => false

theorem isChain_escapeChar {l : List Char} (c : Char)
    (h : ∀ x, List.IsChain (fun a b => b = '"' → a = '\\') (x :: l)) (x : Char) :
    List.IsChain (fun a b => b = '"' → a = '\\') (x :: (escapeChar c ++ l)) := by
  have hdigit : ∀ n, n < 16 → Nat.digitChar n ≠ '"' := by decide
  unfold escapeChar
  split_ifs with h1 h2 h3 h4 h5 h6 h7 h8
  · simpa using h '"'
  · simpa using h '\\'
  · simpa using h 'b'
  · simpa using h 't'
  · simpa using h 'n'
  · simpa using h 'f'
  · simpa using h 'r'
  · have hhigh := hdigit (c.toNat / 16) (by omega)
    have hlow := hdigit (c.toNat % 16) (by omega)
    simpa [hhigh, hlow] using h (Nat.digitChar (c.toNat % 16))
  · simpa [h1] using h c

/-- Inside a string literal a quotation mark follows a backslash. -/
theorem isChain_escaped (cs : List Char) :
    ∀ x, List.IsChain (fun a b => b = '"' → a = '\\') (x :: cs.flatMap escapeChar) := by
  induction cs with
  | nil => simp
  | cons c cs ih => exact isChain_escapeChar c ih

theorem Number.plain_of_mem_chars {n : Number} (h : Number.WF n) {c : Char}
    (hc : c ∈ Number.chars n) :
    c.isDigit ∨ c ∈ ['.', '-', '+', 'e', 'E'] := by
  cases n with
  | posInt n => exact .inl (Nat.isDigit_of_mem_toDigits (by decide) (by decide) hc)
  | negInt n =>
    rcases List.mem_cons.1 hc with rfl | hc
    · exact .inr (by decide)
    · exact .inl (Nat.isDigit_of_mem_toDigits (by decide) (by decide) hc)
  | float text => exact h c hc

/-- **No part of a scalar's text** is a bar followed by the text of a scalar. -/
theorem chars_ne_bar {v w : Json} (hv : v.isScalar = true) (hv' : v.WF) (hw : w.isScalar = true)
    (hw' : w.WF) (l : List Char) : chars v ≠ l ++ '|' :: chars w := by
  intro h
  have hbar : '|' ∈ chars v := by rw [h]; simp
  cases hv' with
  | null => simp [isScalar] at hv
  | bool b => cases b <;> simp [chars] at hbar
  | num hn => exact absurd (Number.plain_of_mem_chars hn hbar) (by decide)
  | str s =>
    have hlast : '"' ∈ chars w := by
      have hrev := congrArg List.reverse h
      simp only [chars, quote, List.reverse_append, List.reverse_cons, List.cons_append,
        List.append_assoc, List.reverse_nil, List.nil_append] at hrev
      rw [← List.mem_reverse]
      cases hcs : (chars w).reverse with
      | nil => rw [hcs] at hrev; simp at hrev
      | cons a as =>
        rw [hcs] at hrev
        rw [(List.cons.inj hrev).1]
        exact List.mem_cons_self
    cases hw' with
    | null => simp [isScalar] at hw
    | bool b => cases b <;> simp [chars] at hlast
    | num hn => exact absurd (Number.plain_of_mem_chars hn hlast) (by decide)
    | str t =>
      -- the inner literal would open with a quotation mark that follows the bar
      have hbody : '"' :: s.toList.flatMap escapeChar =
          (l ++ ['|']) ++ '"' :: t.toList.flatMap escapeChar := by
        have : ('"' :: s.toList.flatMap escapeChar) ++ ['"'] =
            ((l ++ ['|']) ++ '"' :: t.toList.flatMap escapeChar) ++ ['"'] := by
          simpa [chars, quote] using h
        exact List.append_cancel_right this
      have hchain := isChain_escaped s.toList '"'
      rw [hbody, List.append_assoc, List.isChain_append] at hchain
      simp at hchain
    | arr _ => simp [isScalar] at hw
    | obj _ _ => simp [isScalar] at hw
  | arr _ => simp [isScalar] at hv
  | obj _ _ => simp [isScalar] at hv

/-- **A scalar behind a bar** can be cut off a text. -/
theorem bar_chars_inj {v w : Json} (hv : v.isScalar = true) (hv' : v.WF) (hw : w.isScalar = true)
    (hw' : w.WF) {l r : List Char} (h : l ++ '|' :: chars v = r ++ '|' :: chars w) : l = r := by
  rcases List.append_eq_append_iff.1 h with ⟨m, rfl, hm⟩ | ⟨m, rfl, hm⟩
  · cases m with
    | nil => simp
    | cons c m => exact absurd (List.cons.inj hm).2 (chars_ne_bar hv hv' hw hw' m)
  · cases m with
    | nil => simp
    | cons c m => exact absurd (List.cons.inj hm).2 (chars_ne_bar hw hw' hv hv' m)

theorem get_of_get? {j v : Json} {key : String} (h : j.get? key = some v) : j.get key = v := by
  cases j with
  | obj fields =>
    show (fields.lookup key).getD .null = v
    rw [show fields.lookup key = some v from h]
    rfl
  | _ => simp [get?] at h

theorem get?_of_get {j v : Json} {key : String} (h : j.get key = v) (hv : v ≠ .null) :
    j.get? key = some v := by
  cases hj : j.get? key with
  | none =>
    cases j with
    | obj fields =>
      have hnone : fields.lookup key = none := hj
      rw [get, hnone] at h
      exact absurd h.symm hv
    | _ => exact absurd h.symm hv
  | some w => rw [← get_of_get? hj, h]

theorem get_of_get?_none {j : Json} {key : String} (h : j.get? key = none) : j.get key = .null := by
  by_contra hne
  rw [get?_of_get rfl hne] at h
  simp at h

/-- **A required field** that cannot be `null` is what indexing reads. -/
theorem field_eq {α : Type} {decode : Json → Option α} (hnull : decode .null = none) (j : Json)
    (key : String) : j.field key decode = decode (j.get key) := by
  unfold field
  cases hj : j.get? key with
  | none => rw [get_of_get?_none hj, hnull]; rfl
  | some v => rw [get_of_get? hj]; rfl

/-- A field whose default is also its `null` is what indexing reads. -/
theorem fieldOr_eq {α : Type} {default : α} {decode : Json → Option α}
    (hnull : decode .null = some default) (j : Json) (key : String) :
    j.fieldOr key default decode = decode (j.get key) := by
  unfold fieldOr
  cases hj : j.get? key with
  | none => rw [get_of_get?_none hj, hnull]
  | some v => rw [get_of_get? hj]

/-- A field that is there or has its default is determined by what indexing reads. -/
theorem fieldOr_inj {α : Type} {default a b : α} {decode : Json → Option α}
    (hnull : decode .null = none) {j j' : Json} {key : String} (hget : j.get key = j'.get key)
    (ha : j.fieldOr key default decode = some a) (hb : j'.fieldOr key default decode = some b) :
    a = b := by
  have hread : ∀ {j : Json} {a : α}, j.fieldOr key default decode = some a →
      a = (decode (j.get key)).getD default := by
    intro j a ha
    unfold fieldOr at ha
    cases hj : j.get? key with
    | none =>
      rw [hj] at ha
      rw [get_of_get?_none hj, hnull]
      exact (Option.some.inj ha).symm
    | some v =>
      rw [hj] at ha
      rw [get_of_get? hj, show decode v = some a from ha]
      rfl
  rw [hread ha, hread hb, hget]

end Json
