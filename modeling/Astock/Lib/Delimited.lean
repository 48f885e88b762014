import Astock.Lib.Json

/-!
# Texts that delimit themselves

A text that is made of several pieces can be taken apart where each piece shows where it ends.

* `span_inj`, `bar_inj`: pieces that end at a character that they do not have.
* `debug_inj`, `quote_inj`: string literals.
* `Json.chars_inj`: **the compact text of a document** determines the document and where it ends.
-/

namespace Text

theorem span_inj {p : Char → Prop} {l l' r r' : List Char} (hl : ∀ c ∈ l, p c) (hl' : ∀ c ∈ l', p c)
    (hr : ∀ c ∈ r.head?, ¬p c) (hr' : ∀ c ∈ r'.head?, ¬p c) (h : l ++ r = l' ++ r') :
    l = l' ∧ r = r' := by
  induction l generalizing l' with
  | nil =>
    cases l' with
    | nil => exact ⟨rfl, h⟩
    | cons c l' =>
      rw [List.nil_append] at h
      exact absurd (hl' c List.mem_cons_self) (hr c (by rw [h]; rfl))
  | cons c l ih =>
    cases l' with
    | nil =>
      rw [List.nil_append] at h
      exact absurd (hl c List.mem_cons_self) (hr' c (by rw [← h]; rfl))
    | cons c' l' =>
      obtain ⟨rfl, hrest⟩ := List.cons.inj h
      obtain ⟨rfl, rfl⟩ := ih (fun x hx => hl x (List.mem_cons_of_mem _ hx))
        (fun x hx => hl' x (List.mem_cons_of_mem _ hx)) hrest
      exact ⟨rfl, rfl⟩

/-- A text without bars in front of a bar. -/
theorem bar_inj {a b s t : String} (ha : '|' ∉ a.toList) (hb : '|' ∉ b.toList)
    (h : a ++ ("|" ++ s) = b ++ ("|" ++ t)) : a = b ∧ s = t := by
  have hlist := congrArg String.toList h
  rw [String.toList_append, String.toList_append, String.toList_append, String.toList_append]
    at hlist
  obtain ⟨hhead, hrest⟩ := cut_inj ha hb hlist
  exact ⟨String.toList_injective hhead, String.toList_injective hrest⟩

/-- Texts of one length. -/
theorem length_inj {a b s t : String} (hlen : a.length = b.length) (h : a ++ s = b ++ t) :
    a = b ∧ s = t := by
  have hlist := congrArg String.toList h
  rw [String.toList_append, String.toList_append] at hlist
  obtain ⟨hhead, hrest⟩ := List.append_inj hlist hlen
  exact ⟨String.toList_injective hhead, String.toList_injective hrest⟩

theorem nat_bar_inj {m n : ℕ} {s t : String}
    (h : toString m ++ ("|" ++ s) = toString n ++ ("|" ++ t)) : m = n ∧ s = t := by
  obtain ⟨hint, hrest⟩ := int_bar_inj (m := (m : ℤ)) (n := (n : ℤ)) h
  exact ⟨Int.ofNat.inj hint, hrest⟩

/-! ## String literals -/

/-- Codes that show the character they stand for are read off one by one, up to the closing quotation
mark. -/
theorem code_inj {escape : Char → List Char} {read : List Char → Char}
    (hread : ∀ c r, read (escape c ++ r) = c) (hquote : ∀ c r, (escape c ++ r).head? ≠ some '"')
    {l l' r r' : List Char} (h : l.flatMap escape ++ '"' :: r = l'.flatMap escape ++ '"' :: r') :
    l = l' ∧ r = r' := by
  induction l generalizing l' with
  | nil =>
    cases l' with
    | nil => exact ⟨rfl, (List.cons.inj h).2⟩
    | cons c l' =>
      rw [List.flatMap_cons, List.append_assoc] at h
      exact absurd (congrArg List.head? h).symm (hquote c _)
  | cons c l ih =>
    cases l' with
    | nil =>
      rw [List.flatMap_cons, List.append_assoc] at h
      exact absurd (congrArg List.head? h) (hquote c _)
    | cons c' l' =>
      rw [List.flatMap_cons, List.flatMap_cons, List.append_assoc, List.append_assoc] at h
      have hc := congrArg read h
      rw [hread, hread] at hc
      subst hc
      obtain ⟨rfl, rfl⟩ := ih (List.append_cancel_left h)
      exact ⟨rfl, rfl⟩

def hexValue (digits : List Char) : ℕ :=
  digits.foldl (fun n c => 16 * n + if c.isDigit then c.toNat - 48 else c.toNat - 87) 0

/-- The character that the text of a literal starts with, as `Debug` writes it. -/
def readDebug : List Char → Char
  | '\\' :: 'u' :: '{' :: rest => Char.ofNat (hexValue (rest.takeWhile (· ≠ '}')))
  | '\\' :: '0' :: _ => Char.ofNat 0
  | '\\' :: 't' :: _ => Char.ofNat 9
  | '\\' :: 'n' :: _ => Char.ofNat 10
  | '\\' :: 'r' :: _ => Char.ofNat 13
  | '\\' :: c :: _ => c
  | c :: _ => c
  | [] => ' '

theorem readDebug_plain {c : Char} (h : c ≠ '\\') (r : List Char) : readDebug (c :: r) = c := by
  unfold readDebug
  split <;> simp_all

theorem readDebug_escapeDebug (c : Char) (r : List Char) : readDebug (escapeDebug c ++ r) = c := by
  have hof : ∀ {n : ℕ}, c.toNat = n → Char.ofNat n = c := by
    intro n hn
    rw [← hn, Char.ofNat_toNat]
  unfold escapeDebug
  split_ifs with h₁ h₂ h₃ h₄ h₅ h₆ h₇
  · exact h₁.symm
  · exact h₂.symm
  · exact hof h₃
  · exact hof h₄
  · exact hof h₅
  · exact hof h₆
  · -- a control character is below 160
    have hlt : c.toNat < 160 := by
      rw [isControl, Bool.or_eq_true, Bool.and_eq_true, decide_eq_true_eq, decide_eq_true_eq,
        decide_eq_true_eq] at h₇
      omega
    have hdigits : ∀ n < 160, (∀ d ∈ Nat.toDigits 16 n, decide (d ≠ '}')) ∧
        hexValue (Nat.toDigits 16 n) = n := by decide +kernel
    obtain ⟨hplain, hvalue⟩ := hdigits c.toNat hlt
    have htake : (Nat.toDigits 16 c.toNat ++ '}' :: r).takeWhile (· ≠ '}') =
        Nat.toDigits 16 c.toNat := by
      rw [List.takeWhile_append_of_pos hplain]
      simp
    change Char.ofNat (hexValue ((Nat.toDigits 16 c.toNat ++ ['}'] ++ r).takeWhile (· ≠ '}'))) = c
    rw [List.append_assoc]
    change Char.ofNat (hexValue ((Nat.toDigits 16 c.toNat ++ '}' :: r).takeWhile (· ≠ '}'))) = c
    rw [htake, hvalue, Char.ofNat_toNat]
  · exact readDebug_plain h₂ r

theorem head_escapeDebug (c : Char) (r : List Char) : (escapeDebug c ++ r).head? ≠ some '"' := by
  unfold escapeDebug
  split_ifs with h₁ <;> simp_all

theorem debug_inj {a b : String} {r r' : List Char}
    (h : (debug a).toList ++ r = (debug b).toList ++ r') : a = b ∧ r = r' := by
  unfold debug at h
  rw [String.toList_ofList, String.toList_ofList, List.append_assoc, List.append_assoc] at h
  obtain ⟨hlist, hrest⟩ := code_inj readDebug_escapeDebug head_escapeDebug (List.cons.inj h).2
  exact ⟨String.toList_injective hlist, hrest⟩

/-- An optional string in its `Debug` text. -/
theorem debugOption_inj {a b : Option String} {s t : String}
    (h : debugOption debug a ++ s = debugOption debug b ++ t) : a = b ∧ s = t := by
  cases a with
  | none =>
    cases b with
    | none =>
      have hnone : "None" ++ s = "None" ++ t := h
      exact ⟨rfl, append_left_inj hnone⟩
    | some b =>
      have hlist := congrArg String.toList h
      simp [debugOption] at hlist
  | some a =>
    cases b with
    | none =>
      have hlist := congrArg String.toList h
      simp [debugOption] at hlist
    | some b =>
      have hopen : "Some(" ++ (debug a ++ (")" ++ s)) = "Some(" ++ (debug b ++ (")" ++ t)) := by
        rw [← String.append_assoc, ← String.append_assoc, ← String.append_assoc,
          ← String.append_assoc]
        exact h
      have hinner : debug a ++ (")" ++ s) = debug b ++ (")" ++ t) := append_left_inj hopen
      have hlist : (debug a).toList ++ (")" ++ s).toList = (debug b).toList ++ (")" ++ t).toList := by
        rw [← String.toList_append, ← String.toList_append, hinner]
      obtain ⟨rfl, hrest⟩ := debug_inj hlist
      have hclose : ")" ++ s = ")" ++ t := String.toList_injective hrest
      exact ⟨rfl, append_left_inj hclose⟩

end Text

namespace Json

open Text

def isNumeric (c : Char) : Bool := c.isDigit || c ∈ ['.', '-', '+', 'e', 'E']

/-- A number as it is written: a float has a point or an exponent. -/
def Number.Written : Number → Prop
  | .float text => (∀ c ∈ text.toList, isNumeric c) ∧ ∃ c ∈ text.toList, c ∈ ['.', 'e', 'E']
  | _ => True

/-- A document as `serde_json` writes it. -/
inductive Written : Json → Prop
  | null : Written .null
  | bool (b : Bool) : Written (.bool b)
  | num {n : Number} (h : Number.Written n) : Written (.num n)
  | str (s : String) : Written (.str s)
  | arr {items : List Json} (h : ∀ j ∈ items, Written j) : Written (.arr items)
  | obj {fields : List (String × Json)} (h : ∀ f ∈ fields, Written f.2) : Written (.obj fields)

/-! ## Numbers -/

theorem isNumeric_chars {n : Number} (h : Number.Written n) : ∀ c ∈ Number.chars n, isNumeric c := by
  intro c hc
  cases n with
  | posInt n => rw [isNumeric, Nat.isDigit_of_mem_toDigits (by decide) (by decide) hc, Bool.true_or]
  | negInt n =>
    rcases List.mem_cons.1 hc with rfl | hc
    · decide
    · rw [isNumeric, Nat.isDigit_of_mem_toDigits (by decide) (by decide) hc, Bool.true_or]
  | float text => exact h.1 c hc

/-- An integer is written with digits and a sign. -/
theorem float_ne_digits {text : String} (h : Number.Written (.float text)) {l : List Char}
    (hl : ∀ c ∈ l, c.isDigit ∨ c = '-') : text.toList ≠ l := by
  rintro rfl
  obtain ⟨c, hc, hpoint⟩ := h.2
  rcases hl c hc with hdigit | rfl
  · simp only [List.mem_cons, List.not_mem_nil, or_false] at hpoint
    rcases hpoint with rfl | rfl | rfl <;> exact absurd hdigit (by decide)
  · exact absurd hpoint (by decide)

theorem number_chars_inj {m n : Number} (hm : Number.Written m) (hn : Number.Written n)
    (h : Number.chars m = Number.chars n) : m = n := by
  have hdigits : ∀ {k : ℕ} {c : Char}, c ∈ Nat.toDigits 10 k → c.isDigit ∨ c = '-' :=
    fun hc => .inl (Nat.isDigit_of_mem_toDigits (by decide) (by decide) hc)
  have hsigned : ∀ {k : ℕ} {c : Char}, c ∈ '-' :: Nat.toDigits 10 (k + 1) → c.isDigit ∨ c = '-' := by
    intro k c hc
    rcases List.mem_cons.1 hc with rfl | hc
    · exact .inr rfl
    · exact hdigits hc
  have hsign : ∀ {k l : ℕ}, Nat.toDigits 10 k ≠ '-' :: Nat.toDigits 10 (l + 1) := by
    intro k l heq
    have hdigit := Nat.isDigit_of_mem_toDigits (b := 10) (n := k) (c := '-') (by decide) (by decide)
      (by rw [heq]; exact List.mem_cons_self)
    exact absurd hdigit (by decide)
  cases m with
  | posInt m =>
    cases n with
    | posInt n => rw [toDigits_inj h]
    | negInt n => exact absurd h hsign
    | float text => exact absurd h.symm (float_ne_digits hn fun _ => hdigits)
  | negInt m =>
    cases n with
    | posInt n => exact absurd h.symm hsign
    | negInt n => rw [Nat.succ.inj (toDigits_inj (List.cons.inj h).2)]
    | float text => exact absurd h.symm (float_ne_digits hn fun _ => hsigned)
  | float text =>
    cases n with
    | posInt n => exact absurd h (float_ne_digits hm fun _ => hdigits)
    | negInt n => exact absurd h (float_ne_digits hm fun _ => hsigned)
    | float text' => rw [String.toList_injective h]

/-! ## String literals -/

/-- The character that the text of a literal starts with, as JSON writes it. -/
def readEscape : List Char → Char
  | '\\' :: 'u' :: '0' :: '0' :: a :: b :: _ => Char.ofNat (hexValue [a, b])
  | '\\' :: 'b' :: _ => Char.ofNat 8
  | '\\' :: 't' :: _ => Char.ofNat 9
  | '\\' :: 'n' :: _ => Char.ofNat 10
  | '\\' :: 'f' :: _ => Char.ofNat 12
  | '\\' :: 'r' :: _ => Char.ofNat 13
  | '\\' :: c :: _ => c
  | c :: _ => c
  | [] => ' '

theorem readEscape_plain {c : Char} (h : c ≠ '\\') (r : List Char) : readEscape (c :: r) = c := by
  unfold readEscape
  split <;> simp_all

theorem readEscape_escapeChar (c : Char) (r : List Char) : readEscape (escapeChar c ++ r) = c := by
  have hof : ∀ {n : ℕ}, c.toNat = n → Char.ofNat n = c := by
    intro n hn
    rw [← hn, Char.ofNat_toNat]
  unfold escapeChar
  split_ifs with h₁ h₂ h₃ h₄ h₅ h₆ h₇ h₈
  · exact h₁.symm
  · exact h₂.symm
  · exact hof h₃
  · exact hof h₄
  · exact hof h₅
  · exact hof h₆
  · exact hof h₇
  · have hvalue : ∀ n < 32, hexValue [Nat.digitChar (n / 16), Nat.digitChar (n % 16)] = n := by
      decide
    change Char.ofNat (hexValue [Nat.digitChar (c.toNat / 16), Nat.digitChar (c.toNat % 16)]) = c
    rw [hvalue c.toNat h₈, Char.ofNat_toNat]
  · exact readEscape_plain h₂ r

theorem head_escapeChar (c : Char) (r : List Char) : (escapeChar c ++ r).head? ≠ some '"' := by
  unfold escapeChar
  split_ifs with h₁ <;> simp_all

/-- **A JSON string literal** shows where it ends. -/
theorem quote_inj {a b : String} {r r' : List Char} (h : quote a ++ r = quote b ++ r') :
    a = b ∧ r = r' := by
  unfold quote at h
  rw [List.append_assoc, List.append_assoc] at h
  obtain ⟨hlist, hrest⟩ := code_inj readEscape_escapeChar head_escapeChar (List.cons.inj h).2
  exact ⟨String.toList_injective hlist, hrest⟩

/-! ## Documents -/

/-- What may follow a document. -/
def Ends (r : List Char) : Prop := ∀ c ∈ r.head?, c ∈ [',', ']', '}']

/-- The constructor of a document. -/
def kind : Json → ℕ
  | .null => 0
  | .bool _ => 1
  | .num _ => 2
  | .str _ => 3
  | .arr _ => 4
  | .obj _ => 5

/-- The constructor that the first character of a text shows. -/
def lead (c : Char) : ℕ :=
  if c = 'n' then 0
  else if c ∈ ['t', 'f'] then 1
  else if isNumeric c then 2
  else if c = '"' then 3
  else if c = '[' then 4
  else if c = '{' then 5
  else 6

theorem lead_of_numeric {c : Char} (h : isNumeric c) : lead c = 2 := by
  have hn : c ≠ 'n' := by
    rintro rfl
    exact absurd h (by decide)
  have htf : c ∉ ['t', 'f'] := by
    intro hmem
    simp only [List.mem_cons, List.not_mem_nil, or_false] at hmem
    rcases hmem with rfl | rfl <;> exact absurd h (by decide)
  rw [lead, if_neg hn, if_neg htf, if_pos h]

theorem lead_chars {j : Json} (h : Written j) : ∃ c t, chars j = c :: t ∧ lead c = kind j := by
  cases h with
  | null => exact ⟨_, _, rfl, by decide⟩
  | bool b =>
    cases b
    · exact ⟨_, _, rfl, by decide⟩
    · exact ⟨_, _, rfl, by decide⟩
  | @num n hn =>
    have hne : Number.chars n ≠ [] := by
      cases n with
      | posInt n => exact Nat.toDigits_ne_nil
      | negInt n => exact List.cons_ne_nil _ _
      | float text =>
        obtain ⟨c, hc, -⟩ := hn.2
        exact List.ne_nil_of_mem hc
    obtain ⟨c, t, hct⟩ := List.exists_cons_of_ne_nil hne
    refine ⟨c, t, hct, lead_of_numeric (isNumeric_chars hn c ?_)⟩
    rw [hct]
    exact List.mem_cons_self
  | str s => exact ⟨'"', _, rfl, rfl⟩
  | arr _ => exact ⟨'[', _, rfl, rfl⟩
  | obj _ => exact ⟨'{', _, rfl, rfl⟩

/-- The first character of a document tells its constructor. -/
theorem kind_eq {j j' : Json} (hj : Written j) (hj' : Written j') {r r' : List Char}
    (h : chars j ++ r = chars j' ++ r') : kind j = kind j' := by
  obtain ⟨c, t, hct, hc⟩ := lead_chars hj
  obtain ⟨c', t', hct', hc'⟩ := lead_chars hj'
  rw [hct, hct'] at h
  rw [← hc, ← hc', (List.cons.inj h).1]

/-- A document does not start with what may follow one. -/
theorem chars_ne_end {j : Json} (hj : Written j) {c : Char} (hc : c ∈ [',', ']', '}'])
    {r t : List Char} : chars j ++ r ≠ c :: t := by
  intro h
  obtain ⟨d, u, hdu, hd⟩ := lead_chars hj
  rw [hdu] at h
  have hkind : kind j < 6 := by cases j <;> simp [kind]
  rw [← hd, (List.cons.inj h).1] at hkind
  simp only [List.mem_cons, List.not_mem_nil, or_false] at hc
  rcases hc with rfl | rfl | rfl <;> exact absurd hkind (by decide)

/-- What follows an item of an array. -/
def afterItem (r : List Char) : List Json → List Char
  | [] => ']' :: r
  | j :: js => ',' :: (charsItems (j :: js) ++ ']' :: r)

theorem charsItems_cons (j : Json) (js : List Json) (r : List Char) :
    charsItems (j :: js) ++ ']' :: r = chars j ++ afterItem r js := by
  cases js with
  | nil => rfl
  | cons k js =>
    have hcons : charsItems (j :: k :: js) = chars j ++ ',' :: charsItems (k :: js) := by
      rw [charsItems]
      exact List.cons_ne_nil k js
    rw [hcons, List.append_assoc]
    rfl

/-- What follows a field of an object. -/
def afterField (r : List Char) : List (String × Json) → List Char
  | [] => '}' :: r
  | f :: fs => ',' :: (charsFields (f :: fs) ++ '}' :: r)

theorem charsFields_cons (f : String × Json) (fs : List (String × Json)) (r : List Char) :
    charsFields (f :: fs) ++ '}' :: r = quote f.1 ++ ':' :: (chars f.2 ++ afterField r fs) := by
  cases fs with
  | nil =>
    rw [charsFields, List.append_assoc]
    rfl
  | cons g fs =>
    have hcons : charsFields (f :: g :: fs) =
        quote f.1 ++ ':' :: chars f.2 ++ ',' :: charsFields (g :: fs) := by
      rw [charsFields]
      exact List.cons_ne_nil g fs
    rw [hcons, List.append_assoc, List.append_assoc]
    rfl

theorem ends_afterItem (r : List Char) (js : List Json) : Ends (afterItem r js) := by
  cases js <;> intro c hc <;> obtain rfl := Option.some.inj hc <;> decide

theorem ends_afterField (r : List Char) (fs : List (String × Json)) : Ends (afterField r fs) := by
  cases fs <;> intro c hc <;> obtain rfl := Option.some.inj hc <;> decide

/-- A document and what follows it are determined by the text. -/
def Delimits (j : Json) : Prop :=
  ∀ (j' : Json) (r r' : List Char), Written j' → Ends r → Ends r' →
    chars j ++ r = chars j' ++ r' → j = j' ∧ r = r'

theorem items_inj {items : List Json} (hall : ∀ j ∈ items, Written j ∧ Delimits j) :
    ∀ {items' : List Json} {r r' : List Char}, (∀ j ∈ items', Written j) →
      charsItems items ++ ']' :: r = charsItems items' ++ ']' :: r' → items = items' ∧ r = r' := by
  induction items with
  | nil =>
    intro items' r r' hw h
    cases items' with
    | nil => exact ⟨rfl, (List.cons.inj h).2⟩
    | cons j' js' =>
      rw [charsItems_cons] at h
      exact absurd h.symm (chars_ne_end (hw j' List.mem_cons_self) (by decide))
  | cons j js ih =>
    intro items' r r' hw h
    obtain ⟨⟨hj, hdelimits⟩, hjs⟩ := List.forall_mem_cons.1 hall
    rw [charsItems_cons] at h
    cases items' with
    | nil => exact absurd h (chars_ne_end hj (by decide))
    | cons j' js' =>
      obtain ⟨hj', hjs'⟩ := List.forall_mem_cons.1 hw
      rw [charsItems_cons] at h
      obtain ⟨rfl, hafter⟩ := hdelimits j' _ _ hj' (ends_afterItem r js) (ends_afterItem r' js') h
      cases js with
      | nil =>
        cases js' with
        | nil => exact ⟨rfl, (List.cons.inj hafter).2⟩
        | cons _ _ => exact absurd (List.cons.inj hafter).1 (by decide)
      | cons _ _ =>
        cases js' with
        | nil => exact absurd (List.cons.inj hafter).1 (by decide)
        | cons _ _ =>
          obtain ⟨hsame, rfl⟩ := ih hjs hjs' (List.cons.inj hafter).2
          exact ⟨congrArg _ hsame, rfl⟩

theorem fields_inj {fields : List (String × Json)}
    (hall : ∀ f ∈ fields, Written f.2 ∧ Delimits f.2) :
    ∀ {fields' : List (String × Json)} {r r' : List Char}, (∀ f ∈ fields', Written f.2) →
      charsFields fields ++ '}' :: r = charsFields fields' ++ '}' :: r' →
      fields = fields' ∧ r = r' := by
  have hopen : ∀ {s : String} {t u : List Char}, quote s ++ t ≠ '}' :: u :=
    fun h => absurd (List.cons.inj h).1 (by decide)
  induction fields with
  | nil =>
    intro fields' r r' hw h
    cases fields' with
    | nil => exact ⟨rfl, (List.cons.inj h).2⟩
    | cons f' fs' =>
      rw [charsFields_cons] at h
      exact absurd h.symm hopen
  | cons f fs ih =>
    intro fields' r r' hw h
    obtain ⟨⟨hf, hdelimits⟩, hfs⟩ := List.forall_mem_cons.1 hall
    rw [charsFields_cons] at h
    cases fields' with
    | nil => exact absurd h hopen
    | cons f' fs' =>
      obtain ⟨hf', hfs'⟩ := List.forall_mem_cons.1 hw
      rw [charsFields_cons] at h
      obtain ⟨hkey, hrest⟩ := quote_inj h
      obtain ⟨hvalue, hafter⟩ := hdelimits f'.2 _ _ hf' (ends_afterField r fs)
        (ends_afterField r' fs') (List.cons.inj hrest).2
      obtain rfl : f = f' := Prod.ext hkey hvalue
      cases fs with
      | nil =>
        cases fs' with
        | nil => exact ⟨rfl, (List.cons.inj hafter).2⟩
        | cons _ _ => exact absurd (List.cons.inj hafter).1 (by decide)
      | cons _ _ =>
        cases fs' with
        | nil => exact absurd (List.cons.inj hafter).1 (by decide)
        | cons _ _ =>
          obtain ⟨hsame, rfl⟩ := ih hfs hfs' (List.cons.inj hafter).2
          exact ⟨congrArg _ hsame, rfl⟩

/-- **The text of a document** determines the document, and shows where it ends. -/
theorem chars_inj : ∀ j : Json, Written j → Delimits j := by
  intro j
  induction j using Json.induction with
  | null =>
    intro hj j' r r' hj' _ _ h
    have hkind := kind_eq hj hj' h
    cases j' <;> simp only [kind, Nat.reduceEqDiff, reduceCtorEq] at hkind
    exact ⟨rfl, List.append_cancel_left h⟩
  | bool b =>
    intro hj j' r r' hj' _ _ h
    have hkind := kind_eq hj hj' h
    cases j' <;> simp only [kind, Nat.reduceEqDiff, reduceCtorEq] at hkind
    rename_i b'
    cases b <;> cases b'
    · exact ⟨rfl, List.append_cancel_left h⟩
    · exact absurd (List.cons.inj h).1 (by decide)
    · exact absurd (List.cons.inj h).1 (by decide)
    · exact ⟨rfl, List.append_cancel_left h⟩
  | num n =>
    intro hj j' r r' hj' hr hr' h
    have hkind := kind_eq hj hj' h
    cases j' <;> simp only [kind, Nat.reduceEqDiff, reduceCtorEq] at hkind
    rename_i n'
    have hplain : ∀ {r : List Char}, Ends r → ∀ c ∈ r.head?, ¬isNumeric c := by
      intro r hends c hc
      have hmem := hends c hc
      simp only [List.mem_cons, List.not_mem_nil, or_false] at hmem
      rcases hmem with rfl | rfl | rfl <;> decide
    cases hj with
    | num hn =>
      cases hj' with
      | num hn' =>
        obtain ⟨hchars, hrest⟩ := span_inj (isNumeric_chars hn) (isNumeric_chars hn') (hplain hr)
          (hplain hr') h
        exact ⟨congrArg _ (number_chars_inj hn hn' hchars), hrest⟩
  | str s =>
    intro hj j' r r' hj' _ _ h
    have hkind := kind_eq hj hj' h
    cases j' <;> simp only [kind, Nat.reduceEqDiff, reduceCtorEq] at hkind
    obtain ⟨rfl, hrest⟩ := quote_inj h
    exact ⟨rfl, hrest⟩
  | arr items ih =>
    intro hj j' r r' hj' _ _ h
    have hkind := kind_eq hj hj' h
    cases j' <;> simp only [kind, Nat.reduceEqDiff, reduceCtorEq] at hkind
    rename_i items'
    cases hj with
    | arr hitems =>
      cases hj' with
      | arr hitems' =>
        rw [chars, chars, List.append_assoc, List.append_assoc] at h
        obtain ⟨rfl, hrest⟩ := items_inj (fun j hj => ⟨hitems j hj, ih j hj (hitems j hj)⟩) hitems'
          (List.cons.inj h).2
        exact ⟨rfl, hrest⟩
  | obj fields ih =>
    intro hj j' r r' hj' _ _ h
    have hkind := kind_eq hj hj' h
    cases j' <;> simp only [kind, Nat.reduceEqDiff, reduceCtorEq] at hkind
    rename_i fields'
    cases hj with
    | obj hfields =>
      cases hj' with
      | obj hfields' =>
        rw [chars, chars, List.append_assoc, List.append_assoc] at h
        obtain ⟨rfl, hrest⟩ := fields_inj (fun f hf => ⟨hfields f hf, ih f hf (hfields f hf)⟩)
          hfields' (List.cons.inj h).2
        exact ⟨rfl, hrest⟩

/-- **Two documents with one text are one document.** -/
theorem toText_inj {j j' : Json} (hj : Written j) (hj' : Written j') (h : j.toText = j'.toText) :
    j = j' := by
  have hends : Ends [] := fun c hc => by cases hc
  have hchars := congrArg String.toList h
  rw [toText, toText, String.toList_ofList, String.toList_ofList] at hchars
  refine (chars_inj j hj j' [] [] hj' hends hends ?_).1
  rw [hchars]

end Json
