import ModelRelay.Chat.Request

/-!
# Counting tokens

An estimate that needs no model: four characters to a token, a flat price for an image, and a
little for every turn. It is what a caller's quota is asked for before a provider is called, and it
stands in for counts that a provider does not report. Counts are words of 32 bits.
-/

set_option autoImplicit false

namespace ModelRelay.Chat.Tokens

/-- The price of a turn besides its content. -/
def perMessage : UInt32 := 3

/-- The price of preparing the answer. -/
def priming : UInt32 := 3

/-- The price of an image. -/
def perImage : UInt32 := 85

/-- A token for every four characters, begun or full. -/
def ofText (s : String) : UInt32 :=
  let chars := s.length.toUInt32
  chars / 4 + (if chars % 4 = 0 then 0 else 1)

def ofPart : ContentPart → UInt32
  | .text s => ofText s
  | .image _ => perImage

/-- A block of text costs its text, an image its price, anything else its JSON text. -/
def ofBlock (block : Json) : UInt32 :=
  match blockType? block with
  | some "text" => (((block.get? "text").bind Json.string?).map ofText).getD 0
  | some "image" | some "image_url" => perImage
  | _ => ofText block.print

def ofContent : Content → UInt32
  | .text s => ofText s
  | .parts ps => (ps.map ofPart).foldl (· + ·) 0
  | .blocks bs => (bs.map ofBlock).foldl (· + ·) 0
  | .null => 0

def ofSystem (system : Option SystemPrompt) : UInt32 :=
  match system with
  | some prompt => perMessage + ofText prompt.joinedText
  | none => 0

/-- The tokens of a request's prompt. -/
def ofPrompt (r : Request) : UInt32 :=
  r.messages.foldl (fun total m => total + perMessage + ofContent m.content)
    (priming + ofSystem r.system)

end ModelRelay.Chat.Tokens
