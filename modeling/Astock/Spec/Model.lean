import Astock.Lib.Text
import Astock.Spec.Events

/-!
# Messages, streamed chunks and tool calls

`crates/agent-runtime/src/model.rs`, and the assembly of streamed tool calls in
`runtime.rs`. A partial call collects the fragments of one streaming index; the
calls of a turn are the partial calls in order of their index.
-/

namespace Astock

inductive MessageRole where
  | system
  | user
  | assistant
  | tool
  deriving DecidableEq

def MessageRole.asStr : MessageRole → String
  | .system => "system"
  | .user => "user"
  | .assistant => "assistant"
  | .tool => "tool"

structure ModelToolCall where
  id : String
  name : String
  arguments : String
  index : ℕ
  deriving DecidableEq

structure Message where
  role : MessageRole
  content : String
  toolCalls : List ModelToolCall := []
  toolCallId : Option String := none
  deriving DecidableEq

namespace Message

def text (role : MessageRole) (content : String) : Message := { role, content }

def toolResult (callId content : String) : Message :=
  { role := .tool, content, toolCallId := some callId }

end Message

def ModelToolCall.toJson (call : ModelToolCall) : Json := .ofFields [
  ("id", .str call.id), ("name", .str call.name), ("arguments", .str call.arguments),
  ("index", .ofNat call.index)]

def Message.toJson (m : Message) : Json := .ofFields (
  [("role", .str m.role.asStr)] ++
    (if m.content = "" then [] else [("content", .str m.content)]) ++
    (if m.toolCalls = [] then [] else [("tool_calls", .arr (m.toolCalls.map (·.toJson)))]) ++
    (m.toolCallId.map fun id => ("tool_call_id", Json.str id)).toList)

inductive ModelChunk where
  | textDelta (delta : String)
  | toolCallDelta (index : ℕ) (id name arguments : Option String)
  | finished (reason : Option String)
  deriving DecidableEq

def malformedProvider (message : String) : RuntimeError :=
  .provider { kind := .malformedResponse, message, retryable := false }

/-! ## Fragments -/

structure PartialToolCall where
  id : String := ""
  name : String := ""
  arguments : String := ""
  argumentChars : ℕ := 0
  deriving DecidableEq

/-- The fragment, unless it is absent or empty. -/
def nonEmpty (fragment : Option String) : Option String := fragment.filter (· ≠ "")

def mergeFragment (target : String) (fragment : Option String) : String :=
  match nonEmpty fragment with
  | none => target
  | some fragment =>
    -- a fragment that repeats what is there is a cumulative update
    if target = "" ∨ Text.startsWith fragment target then fragment
    else if Text.endsWith target fragment then target
    else target ++ fragment

def mergeCountedFragment (target : String) (characterCount : ℕ) (fragment : Option String) :
    String × ℕ :=
  match nonEmpty fragment with
  | none => (target, characterCount)
  | some fragment =>
    if target = "" ∨ Text.startsWith fragment target then (fragment, fragment.length)
    else if Text.endsWith target fragment then (target, characterCount)
    else (target ++ fragment, characterCount + fragment.length)

namespace PartialToolCall

def merge (p : PartialToolCall) (id name arguments : Option String) : PartialToolCall where
  id := mergeFragment p.id id
  name := mergeFragment p.name name
  arguments := (mergeCountedFragment p.arguments p.argumentChars arguments).1
  argumentChars := (mergeCountedFragment p.arguments p.argumentChars arguments).2

def finish (p : PartialToolCall) (index : ℕ) : Except RuntimeError ModelToolCall :=
  if p.id = "" ∨ p.name = "" ∨ p.arguments = "" then
    .error (malformedProvider s!"incomplete tool call at streaming index {index}")
  else .ok { id := p.id, name := p.name, arguments := p.arguments, index }

end PartialToolCall

/-- The partial calls of a turn, by streaming index. -/
abbrev PartialCalls := List (ℕ × PartialToolCall)

namespace PartialCalls

/-- `partial_calls.entry(index).or_default()`. -/
def entry (calls : PartialCalls) (index : ℕ) : PartialToolCall := (calls.lookup index).getD {}

/-- Store the partial call of an index, in order of the indices. -/
def insert (index : ℕ) (p : PartialToolCall) : PartialCalls → PartialCalls
  | [] => [(index, p)]
  | (i, q) :: rest =>
    if index = i then (index, p) :: rest
    else if index < i then (index, p) :: (i, q) :: rest
    else (i, q) :: insert index p rest

/-- The finished calls, or the first error. -/
def finishAll : PartialCalls → Except RuntimeError (List ModelToolCall)
  | [] => .ok []
  | (index, p) :: rest =>
    match p.finish index with
    | .error e => .error e
    | .ok call =>
      match finishAll rest with
      | .error e => .error e
      | .ok calls => .ok (call :: calls)

end PartialCalls

/-- `value.len() > 128 || value.chars().any(char::is_control)`. -/
def badLabel (value : Option String) : Bool :=
  value.any fun s => 128 < s.utf8ByteSize || s.toList.any Text.isControl

/-- The complaint about a fragment, if there is one. -/
def validateToolFragment (id name arguments : Option String) (maxArgumentChars : ℕ) :
    Option String :=
  if badLabel id then some "tool call ID exceeds 128 visible bytes"
  else if badLabel name then some "tool call name exceeds 128 visible bytes"
  else if arguments.any fun s => maxArgumentChars < s.length then
    some s!"tool call argument fragment exceeded {maxArgumentChars} characters"
  else none

end Astock
