import ModelRelay.Json.Decoder

/-!
# Why an answer ended
-/

set_option autoImplicit false

namespace ModelRelay.Chat

inductive FinishReason where
  | stop
  | length
  | toolCalls
  | contentFilter
deriving DecidableEq, Repr

namespace FinishReason

def name : FinishReason → String
  | stop => "stop"
  | length => "length"
  | toolCalls => "tool_calls"
  | contentFilter => "content_filter"

def names : List (String × FinishReason) :=
  [stop, length, toolCalls, contentFilter].map fun f => (f.name, f)

def decoder : Decoder FinishReason :=
  Decoder.oneOf names

/-- The reason that the Messages protocol gives under another name. -/
def ofStopReason? (reason : String) : Option FinishReason :=
  match reason with
  | "end_turn" | "stop_sequence" => some stop
  | "max_tokens" => some length
  | "tool_use" => some toolCalls
  | _ => none

/-- The reason, or null. -/
def toJson (f : Option FinishReason) : Json :=
  match f with
  | some f => .string f.name
  | none => .null

end FinishReason

end ModelRelay.Chat
