import ModelRelay.Chat.Tokens

/-!
# Usage

How many tokens a call took. Providers report the two counts together, one after the other, or not
at all; the newest report of each count stands, and what is missing at the end is estimated.
-/

set_option autoImplicit false

namespace ModelRelay.Chat

/-- The counts of a finished call. -/
structure Usage where
  prompt : UInt32
  completion : UInt32
  total : UInt32
deriving DecidableEq, Repr

/-- The counts reported so far. -/
structure PartialUsage where
  prompt : Option UInt32 := none
  completion : Option UInt32 := none
deriving DecidableEq, Repr

/-- The sum, or the greatest word if the sum is greater. -/
def addSaturating (a b : UInt32) : UInt32 :=
  if 0x100000000 ≤ a.toNat + b.toNat then 0xFFFFFFFF else a + b

namespace Usage

def ofCounts (prompt completion : UInt32) : Usage :=
  ⟨prompt, completion, addSaturating prompt completion⟩

/-- Fills in what was not reported: the prompt's estimate, and an estimate of the text. -/
def finalize (reported : PartialUsage) (promptEstimate : UInt32) (text : String) : Usage :=
  ofCounts (reported.prompt.getD promptEstimate) (reported.completion.getD (Tokens.ofText text))

def toJson (u : Usage) : Json :=
  .object [("prompt_tokens", .ofNat u.prompt.toNat),
    ("completion_tokens", .ofNat u.completion.toNat), ("total_tokens", .ofNat u.total.toNat)]

/-- The fields read so far. -/
structure Slots where
  prompt : Option UInt32 := none
  completion : Option UInt32 := none
  total : Option UInt32 := none

open Decoder in
def put (s : Slots) (field : String) (r : Reading) : Except Mismatch Slots := do
  match field with
  | "prompt_tokens" => return { s with prompt := ← fill field s.prompt word r }
  | "completion_tokens" => return { s with completion := ← fill field s.completion word r }
  | "total_tokens" => return { s with total := ← fill field s.total word r }
  | _ => do skip r; return s

def decoder : Decoder Usage := fun r => do
  let s ← Decoder.record
    [("prompt_tokens", false), ("completion_tokens", false), ("total_tokens", false)] put {} r
  return ⟨← Decoder.need "prompt_tokens" s.prompt, ← Decoder.need "completion_tokens" s.completion,
    ← Decoder.need "total_tokens" s.total⟩

end Usage

namespace PartialUsage

/-- Takes a newer report over an older one, count by count. -/
def merge (older newer : PartialUsage) : PartialUsage :=
  ⟨newer.prompt.or older.prompt, newer.completion.or older.completion⟩

end PartialUsage

end ModelRelay.Chat
