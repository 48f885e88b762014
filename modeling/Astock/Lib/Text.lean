import Mathlib.Tactic

/-!
# Strings as Rust's `str` sees them

Lean's `String` is a sequence of characters held as UTF-8, like `str`: `str::len`
is `String.utf8ByteSize` and `chars().count()` is `String.length`. The
operations whose Lean namesakes differ (Unicode white space, byte order of
prefixes) are defined here on the character list.
-/

namespace Text

/-! ## Deciding -/

section Decide

variable {p : Char → Prop} [DecidablePred p] (l : List Char)

/-- A property of the characters of a list is decided along the list, not over all characters. -/
instance (priority := 2000) decidableForallMem : Decidable (∀ c ∈ l, p c) := List.decidableBAll p l

instance (priority := 2000) decidableExistsMem : Decidable (∃ c ∈ l, p c) := List.decidableBEx p l

end Decide

/-! ## Characters and pieces -/

/-- `char::is_whitespace`: the Unicode `White_Space` property. -/
def isWhiteSpace (c : Char) : Bool :=
  let n := c.toNat
  (9 ≤ n && n ≤ 13) || n == 0x20 || n == 0x85 || n == 0xA0 || n == 0x1680 ||
    (0x2000 ≤ n && n ≤ 0x200A) || n == 0x2028 || n == 0x2029 || n == 0x202F || n == 0x205F ||
    n == 0x3000

/-- `char::is_control`: the general category `Cc`. -/
def isControl (c : Char) : Bool := c.toNat < 0x20 || (0x7F ≤ c.toNat && c.toNat ≤ 0x9F)

/-- `str::trim`. -/
def trim (s : String) : String :=
  String.ofList ((s.toList.dropWhile isWhiteSpace).reverse.dropWhile isWhiteSpace).reverse

/-- `str::split_whitespace`. -/
def splitWhitespace (s : String) : List String :=
  ((s.toList.splitOnP isWhiteSpace).filter (· ≠ [])).map String.ofList

/-- `chars().take(n).collect()`. -/
def takeChars (n : ℕ) (s : String) : String := String.ofList (s.toList.take n)

/-- `str::starts_with`. -/
def startsWith (s p : String) : Bool := p.toList.isPrefixOf s.toList

/-- `str::ends_with`. -/
def endsWith (s p : String) : Bool := p.toList.isSuffixOf s.toList

/-- `str::contains`. -/
def contains (s p : String) : Bool := s.toList.tails.any fun rest => p.toList.isPrefixOf rest

/-- The rest after the first `n` bytes, when a character ends there. -/
def dropBytes : ℕ → List Char → Option (List Char)
  | 0, cs => some cs
  | _ + 1, [] => none
  | n + 1, c :: cs => if c.utf8Size ≤ n + 1 then dropBytes (n + 1 - c.utf8Size) cs else none

/-- The first `n` bytes, when a character ends there. -/
def takeBytes : ℕ → List Char → Option (List Char)
  | 0, _ => some []
  | _ + 1, [] => none
  | n + 1, c :: cs =>
    if c.utf8Size ≤ n + 1 then (takeBytes (n + 1 - c.utf8Size) cs).map (c :: ·) else none

/-- `str::get(a..b)`: the bytes from `a` to `b`, between two character boundaries. -/
def slice (s : String) (a b : ℕ) : Option String :=
  if a ≤ b then ((dropBytes a s.toList).bind (takeBytes (b - a))).map String.ofList else none

/-- The places at which `str::match_indices` finds a text that is not empty. -/
def matchIndices (word : List Char) : ℕ → ℕ → List Char → List ℕ
  | _, _, [] => []
  | at', skip + 1, _ :: cs => matchIndices word (at' + 1) skip cs
  | at', 0, c :: cs =>
    if word.isPrefixOf (c :: cs) then at' :: matchIndices word (at' + 1) (word.length - 1) cs
    else matchIndices word (at' + 1) 0 cs

/-- `str::trim_matches`. -/
def trimMatches (drop : Char → Bool) (s : String) : String :=
  String.ofList ((s.toList.dropWhile drop).reverse.dropWhile drop).reverse

/-- `text LIKE pattern`, on the characters of the pattern: `%` is any text, `_` any character, and
the case of ASCII letters does not count. -/
def like : List Char → List Char → Bool
  | [], cs => cs.isEmpty
  | '%' :: p, cs => cs.tails.any (like p)
  | '_' :: p, cs => match cs with
    | [] => false
    | _ :: cs => like p cs
  | x :: p, cs => match cs with
    | [] => false
    | c :: cs => x.toLower == c.toLower && like p cs

/-- A character in the `Debug` text of a string; beyond ASCII every character is taken to be
printable. -/
def escapeDebug (c : Char) : List Char :=
  if c = '"' then ['\\', '"']
  else if c = '\\' then ['\\', '\\']
  else if c.toNat = 0 then ['\\', '0']
  else if c.toNat = 9 then ['\\', 't']
  else if c.toNat = 10 then ['\\', 'n']
  else if c.toNat = 13 then ['\\', 'r']
  else if isControl c then ['\\', 'u', '{'] ++ Nat.toDigits 16 c.toNat ++ ['}']
  else [c]

/-- `format!("{:?}", s)`. -/
def debug (s : String) : String := String.ofList ('"' :: s.toList.flatMap escapeDebug ++ ['"'])

/-- `format!("{:?}", x)` of an option, given the `Debug` text of what it holds. -/
def debugOption {α : Type} (debug : α → String) : Option α → String
  | none => "None"
  | some a => "Some(" ++ debug a ++ ")"

/-- A byte from the second on of a character in UTF-8. -/
def isContinuation (b : UInt8) : Bool := 0x80 ≤ b && b ≤ 0xBF

/-- The second byte that may follow the first of a character of three or four bytes. -/
def secondByte (first second : UInt8) : Bool :=
  if first = 0xE0 then 0xA0 ≤ second && second ≤ 0xBF
  else if first = 0xED then 0x80 ≤ second && second ≤ 0x9F
  else if first = 0xF0 then 0x90 ≤ second && second ≤ 0xBF
  else if first = 0xF4 then 0x80 ≤ second && second ≤ 0x8F
  else isContinuation second

/-- The number of bytes that a character with this first byte has, 0 when there is none. -/
def utf8CharWidth (first : UInt8) : ℕ :=
  if first < 0x80 then 1
  else if 0xC2 ≤ first && first ≤ 0xDF then 2
  else if 0xE0 ≤ first && first ≤ 0xEF then 3
  else if 0xF0 ≤ first && first ≤ 0xF4 then 4
  else 0

/-- How many bytes of a character stand at the front: those that belong together, also when the
character is not finished. -/
def utf8Run (first : UInt8) (rest : List UInt8) : ℕ :=
  match utf8CharWidth first, rest with
  | 2, b :: _ => if isContinuation b then 2 else 1
  | 3, b :: rest =>
    if !secondByte first b then 1
    else match rest with
      | c :: _ => if isContinuation c then 3 else 2
      | [] => 2
  | 4, b :: rest =>
    if !secondByte first b then 1
    else match rest with
      | c :: rest =>
        if !isContinuation c then 2
        else match rest with
          | d :: _ => if isContinuation d then 4 else 3
          | [] => 3
      | [] => 2
  | _, _ => 1

/-- The character that these bytes encode. -/
def utf8Char (width : ℕ) (first : UInt8) (rest : List UInt8) : Char :=
  let low := rest.foldl (fun n b => n * 64 + b.toNat % 64)
  match width with
  | 1 => Char.ofNat first.toNat
  | 2 => Char.ofNat (low (first.toNat % 32))
  | 3 => Char.ofNat (low (first.toNat % 16))
  | _ => Char.ofNat (low (first.toNat % 8))

/-- `String::from_utf8_lossy`, on at most `fuel` bytes: what is no character becomes U+FFFD, once for
the bytes that belong together. -/
def lossyChars : ℕ → List UInt8 → List Char
  | 0, _ => []
  | _ + 1, [] => []
  | fuel + 1, first :: rest =>
    let run := utf8Run first rest
    let c :=
      if run = utf8CharWidth first then utf8Char run first (rest.take (run - 1))
      else Char.ofNat 0xFFFD
    c :: lossyChars fuel (rest.drop (run - 1))

def fromUtf8Lossy (bytes : List UInt8) : String := String.ofList (lossyChars bytes.length bytes)

/-- `str::trim_end_matches`. -/
def trimEndMatches (drop : Char → Bool) (s : String) : String :=
  String.ofList (s.toList.reverse.dropWhile drop).reverse

/-- Two texts that share a prefix are equal when their rests are. -/
theorem append_left_inj {p a b : String} (h : p ++ a = p ++ b) : a = b := by
  have := congrArg String.toList h
  simp only [String.toList_append, List.append_cancel_left_eq] at this
  exact String.toList_injective this

/-- A text contains another where it stands in it. -/
theorem contains_iff {s p : String} : contains s p ↔ p.toList <:+: s.toList := by
  rw [contains, List.any_eq_true, List.infix_iff_prefix_suffix]
  constructor
  · rintro ⟨rest, hrest, hpre⟩
    exact ⟨rest, List.isPrefixOf_iff_prefix.1 hpre, (List.mem_tails _ _).1 hrest⟩
  · rintro ⟨rest, hpre, hrest⟩
    exact ⟨rest, (List.mem_tails _ _).2 hrest, List.isPrefixOf_iff_prefix.2 hpre⟩

/-- A text is cut in one way at the first place of a character. -/
theorem cut_inj {c : Char} {l l' r r' : List Char} (hl : c ∉ l) (hl' : c ∉ l')
    (h : l ++ c :: r = l' ++ c :: r') : l = l' ∧ r = r' := by
  induction l generalizing l' with
  | nil =>
    cases l' with
    | nil => exact ⟨rfl, (List.cons.inj h).2⟩
    | cons d l' => exact absurd ((List.cons.inj h).1 ▸ List.mem_cons_self) hl'
  | cons d l ih =>
    cases l' with
    | nil => exact absurd ((List.cons.inj h).1 ▸ List.mem_cons_self) hl
    | cons d' l' =>
      obtain ⟨rfl, hrest⟩ := List.cons.inj h
      obtain ⟨rfl, rfl⟩ := ih (fun hc => hl (List.mem_cons_of_mem _ hc))
        (fun hc => hl' (List.mem_cons_of_mem _ hc)) hrest
      exact ⟨rfl, rfl⟩

/-- The characters of an integer. -/
theorem toList_toString_int : ∀ n : ℤ, (toString n).toList =
    match n with
    | .ofNat m => Nat.toDigits 10 m
    | .negSucc m => '-' :: Nat.toDigits 10 (m + 1)
  | .ofNat m => by
    show (Nat.repr m).toList = _
    exact Nat.toList_repr
  | .negSucc m => by
    show ("-" ++ Nat.repr (m + 1)).toList = _
    simp

/-- The text of an integer consists of digits and a sign. -/
theorem mem_toString_int {n : ℤ} {c : Char} (h : c ∈ (toString n).toList) : c.isDigit ∨ c = '-' := by
  rw [toList_toString_int] at h
  cases n with
  | ofNat m => exact .inl (Nat.isDigit_of_mem_toDigits (by decide) (by decide) h)
  | negSucc m =>
    rcases List.mem_cons.1 h with h | h
    · exact .inr h
    · exact .inl (Nat.isDigit_of_mem_toDigits (by decide) (by decide) h)

theorem toDigits_inj {m n : ℕ} (h : Nat.toDigits 10 m = Nat.toDigits 10 n) : m = n := by
  rw [← Nat.ofDigitChars_ten_toDigits (n := m), h, Nat.ofDigitChars_ten_toDigits]

theorem toString_int_inj {m n : ℤ} (h : (toString m).toList = (toString n).toList) : m = n := by
  have hsign : ∀ {m n : ℕ}, Nat.toDigits 10 m ≠ '-' :: Nat.toDigits 10 n := by
    intro m n h
    have hdigit := Nat.isDigit_of_mem_toDigits (b := 10) (n := m) (c := '-') (by decide) (by decide)
      (by rw [h]; exact List.mem_cons_self)
    exact absurd hdigit (by decide)
  rw [toList_toString_int, toList_toString_int] at h
  cases m with
  | ofNat m =>
    cases n with
    | ofNat n => rw [toDigits_inj h]
    | negSucc n => exact absurd h hsign
  | negSucc m =>
    cases n with
    | ofNat n => exact absurd h.symm hsign
    | negSucc n => rw [Nat.succ.inj (toDigits_inj (List.cons.inj h).2)]

/-- An integer in front of a bar can be read off a text. -/
theorem int_bar_inj {m n : ℤ} {s t : String}
    (h : toString m ++ ("|" ++ s) = toString n ++ ("|" ++ t)) : m = n ∧ s = t := by
  have hbar : ∀ n : ℤ, '|' ∉ (toString n).toList := by
    intro n hmem
    rcases mem_toString_int hmem with h | h
    · exact absurd h (by decide)
    · exact absurd h (by decide)
  have hlist := congrArg String.toList h
  rw [String.toList_append, String.toList_append, String.toList_append, String.toList_append]
    at hlist
  obtain ⟨hint, hrest⟩ := cut_inj (hbar m) (hbar n) hlist
  exact ⟨toString_int_inj hint, String.toList_injective hrest⟩

end Text
