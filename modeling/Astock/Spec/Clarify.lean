import Astock.Lib.Best
import Astock.Lib.Lines

/-!
# Clarifications

`crates/agent-runtime/src/clarify.rs`: a question with options, how it is printed, and how a reply is read.
-/

namespace Astock.Clarify

structure ClarificationOption where
  id : String
  label : String
  detail : Option String
  synonyms : List String
  recommended : Bool
  deriving DecidableEq

/-- A question. A `Vec` has fewer than `2 ^ 63` items. -/
structure ClarificationRequest where
  id : String
  question : String
  options : List ClarificationOption
  allowDelegation : Bool
  allowOther : Bool
  recommendationReason : Option String
  length_lt : options.length < 2 ^ 63

inductive ClarificationAnswer
  | option (id : String)
  | delegated
  | otherRequested
  | freeText (text : String)
  deriving DecidableEq

/-! ## Folding and matching -/

/-- A character without case, width and punctuation. -/
def foldChar (c : Char) : Char :=
  if c ∈ ['，', ',', '。', '？', '！', '：', '；', '　'] then ' '
  else if c ∈ ['（', '）', '(', ')', '"', '\'', '“', '”'] then ' '
  else if Text.isWhiteSpace c then ' '
  else c.toLower

@[irreducible] def fold (input : String) : String :=
  " ".intercalate (Text.splitWhitespace (String.ofList ((Text.trim input).toList.map foldChar)))

def containsAny (folded : String) (phrases : List String) : Bool := phrases.any (Text.contains folded)

def otherPrefixes : List String := ["other:", "other：", "其他:", "其他：", "自定义:", "自定义："]

/-- `strip_other_prefix`; ASCII lower case keeps the places of the characters. -/
def stripOtherPrefix (raw : String) : Option String :=
  (otherPrefixes.find? fun opening => opening.toList.isPrefixOf (raw.toList.map Char.toLower)).map
    fun opening => String.ofList (raw.toList.drop opening.length)

/-- A number without its sign. -/
def unsigned : List Char → List Char
  | '+' :: digits => digits
  | digits => digits

/-- `str::parse::<usize>`. -/
def parseUsize (text : List Char) : Option ℕ :=
  let digits := unsigned text
  if digits ≠ [] ∧ digits.all Char.isDigit ∧ Nat.ofDigitChars 10 digits 0 < 2 ^ 64 then
    some (Nat.ofDigitChars 10 digits 0)
  else none

/-- `checked_sub(1)`. -/
def predecessor : ℕ → Option ℕ
  | 0 => none
  | n + 1 => some n

def ordinals : List (String × ℕ) :=
  [("第一", 0), ("第二", 1), ("第三", 2), ("第四", 3), ("第五", 4), ("第六", 5), ("第七", 6), ("第八", 7)]

def verbs : List String := ["选", "选择", "option", "choose", "pick"]

/-- The number after the first of the verbs that leaves one. -/
def verbNumber (compact : List Char) : Option ℕ :=
  verbs.findSome? fun verb =>
    if verb.toList.isPrefixOf compact then
      parseUsize (Text.trim (String.ofList (compact.drop verb.length))).toList
    else none

/-- `positional_index`: a position from 0, given by a number, a letter or an ordinal. -/
def positionalIndex (folded : String) : Option ℕ :=
  let compact := folded.toList.filter (!Text.isWhiteSpace ·)
  match parseUsize compact with
  | some number => predecessor number
  | none =>
    match compact with
    | [c] => if c.isLower then some (c.toNat - 'a'.toNat) else phrase compact
    | _ => phrase compact
where
  phrase (compact : List Char) : Option ℕ :=
    match ordinals.find? fun ordinal => Text.contains (String.ofList compact) ordinal.1 with
    | some ordinal => some ordinal.2
    | none => (verbNumber compact).bind predecessor

def delegationPhrases : List String :=
  ["你自己选", "你来选", "你选", "你决定", "你自己决定", "由你决定", "agent决定", "let agent choose", "agent choose",
    "agent decide", "you decide", "你判断", "看你的", "随你", "都行"]

def otherPhrases : List String := ["其他", "other", "自定义", "都不是", "以上都不"]

/-- What an option answers to. -/
def ClarificationOption.keys (option : ClarificationOption) : List String := option.label :: option.synonyms

/-- The folded keys of an option that a reply contains, by their lengths. -/
def keyCandidates (folded : String) (option : ClarificationOption) : List (ℕ × ClarificationOption) :=
  option.keys.filterMap fun key =>
    if fold key = "" then none
    else if folded = fold key ∨ Text.contains folded (fold key) then some ((fold key).length, option)
    else none

/-- `max_by_key`: the last of the longest. -/
def longest (candidates : List (ℕ × ClarificationOption)) : Option (ℕ × ClarificationOption) :=
  Best.pick (fun candidate best => best.1 ≤ candidate.1) candidates

namespace ClarificationRequest

/-! ## The question -/

def validate (request : ClarificationRequest) : Except String Unit :=
  let recommended := request.options.countP (·.recommended)
  if request.options.isEmpty then .error "a clarification must offer at least one option"
  else if 1 < recommended then .error "at most one option may be marked Recommended"
  else if recommended = 1 ∧ request.recommendationReason.isNone then
    .error ("a Recommended option requires a reason drawn from real context, so that " ++
      "recommendations cannot be produced mechanically")
  else unseen [] request.options
where
  /-- No option has the id of one before it. -/
  unseen : List String → List ClarificationOption → Except String Unit
    | _, [] => .ok ()
    | seen, option :: options =>
      if option.id ∈ seen then .error ("duplicate clarification option id `" ++ option.id ++ "`")
      else unseen (seen ++ [option.id]) options

def delegationPosition (request : ClarificationRequest) : Option ℕ :=
  if request.allowDelegation then some request.options.length else none

def otherPosition (request : ClarificationRequest) : Option ℕ :=
  if request.allowOther then some (request.options.length + if request.allowDelegation then 1 else 0)
  else none

/-- `[number] text`. -/
def entryLine (position : ℕ) (text : String) : String := "[" ++ toString (position + 1) ++ "] " ++ text

def optionLines (index : ℕ) (option : ClarificationOption) : List String :=
  (entryLine index option.label ++ if option.recommended then "        Recommended" else "") ::
    (option.detail.map ("    " ++ ·)).toList

def renderLines (request : ClarificationRequest) : List String :=
  request.question :: "" :: (request.options.mapIdx optionLines).flatten ++
    (request.delegationPosition.map (entryLine · "Let Agent choose")).toList ++
      (request.otherPosition.map (entryLine · "Other...")).toList

def renderPlain (request : ClarificationRequest) : String := "\n".intercalate request.renderLines

/-! ## The answer -/

/-- The entry at a position. -/
def atPosition (request : ClarificationRequest) (position : ℕ) : Option ClarificationAnswer :=
  match request.options[position]? with
  | some option => some (.option option.id)
  | none =>
    if some position = request.delegationPosition then some .delegated
    else if some position = request.otherPosition then some .otherRequested
    else none

/-- The reply after the stages that read its beginning and its position. -/
def matched (request : ClarificationRequest) (raw folded : String) : Option ClarificationAnswer :=
  if containsAny folded delegationPhrases then
    if request.allowDelegation then some .delegated else none
  else match longest (request.options.flatMap (keyCandidates folded)) with
    | some (_, option) => some (.option option.id)
    | none =>
      if containsAny folded otherPhrases then
        if request.allowOther then some .otherRequested else none
      else if request.allowOther then some (.freeText raw) else none

def interpretAnswer (request : ClarificationRequest) (reply : String) : Option ClarificationAnswer :=
  let raw := Text.trim reply
  if raw = "" then none
  else match stripOtherPrefix raw with
    | some text =>
      if !request.allowOther then none
      else if Text.trim text = "" then some .otherRequested else some (.freeText (Text.trim text))
    | none =>
      match positionalIndex (fold raw) with
      | some position => request.atPosition position
      | none => request.matched raw (fold raw)

end ClarificationRequest

end Astock.Clarify
