import ModelRelay.Chat.Role
import ModelRelay.Json.Printer

/-!
# What a turn says

Text, or typed parts, or blocks the relay has no type for and keeps as they came, or nothing. Which
of these an array is depends on the whole of it: if every item reads as a part, they are parts and
members without a place in a part are gone; one item that does not, and all of them stay blocks.
-/

set_option autoImplicit false

namespace ModelRelay.Chat

/-- A reference to an image. -/
structure ImageUrl where
  url : String
  detail : Option String
deriving DecidableEq, Repr

/-- A typed part of a turn. -/
inductive ContentPart where
  | text (text : String)
  | image (image : ImageUrl)
deriving DecidableEq, Repr

inductive Content where
  | text (text : String)
  | parts (parts : List ContentPart)
  | blocks (blocks : List Json)
  | null
deriving Repr

/-- The instructions at the top of a request. -/
inductive SystemPrompt where
  | text (text : String)
  | blocks (blocks : List Json)
deriving Repr

/-! ## Reading -/

namespace ImageUrl

/-- The fields read so far. -/
structure Slots where
  url : Option String := none
  detail : Option (Option String) := none

def put (s : Slots) (name : String) (r : Reading) : Except Mismatch Slots := do
  match name with
  | "url" => return { s with url := ← Decoder.fill name s.url Decoder.text r }
  | "detail" =>
    return { s with detail := ← Decoder.fill name s.detail (Decoder.optional Decoder.text) r }
  | _ => do Decoder.skip r; return s

def decoder : Decoder ImageUrl := fun r => do
  let s ← Decoder.record [("url", false), ("detail", true)] put {} r
  return ⟨← Decoder.need "url" s.url, s.detail.join⟩

def toJson (i : ImageUrl) : Json :=
  .ofMembers [("url", some (.string i.url)), ("detail", i.detail.map .string)]

end ImageUrl

namespace ContentPart

def tags (byPlace : Bool) : Decoder.Tags :=
  ⟨["text", "image_url"], none, byPlace⟩

def putText (s : Option String) (name : String) (r : Reading) :
    Except Mismatch (Option String) := do
  match name with
  | "text" => Decoder.fill name s Decoder.text r
  | _ => do Decoder.skip r; return s

def putImage (s : Option ImageUrl) (name : String) (r : Reading) :
    Except Mismatch (Option ImageUrl) := do
  match name with
  | "image_url" => Decoder.fill name s ImageUrl.decoder r
  | _ => do Decoder.skip r; return s

/-- The rest of a part whose tag is known. -/
def body : String → Decoder ContentPart
  | "text" => fun r => do
    return .text (← Decoder.need "text" (← Decoder.record [("text", false)] putText none r))
  | _ => fun r => do
    return .image
      (← Decoder.need "image_url" (← Decoder.record [("image_url", false)] putImage none r))

/-- A part; `byPlace` in held data. -/
def decoder (byPlace : Bool) : Decoder ContentPart :=
  Decoder.tagged (tags byPlace) body

def toJson : ContentPart → Json
  | .text s => .object [("type", .string "text"), ("text", .string s)]
  | .image i => .object [("type", .string "image_url"), ("image_url", i.toJson)]

end ContentPart

/-- The first decoder that fits; which one it is shows at the end of the data only. -/
def firstFit {α : Type} (choices : List (Decoder α)) : Decoder α :=
  Decoder.held fun r =>
    (choices.findSome? fun d => (d r).toOption).elim (throw .kind) pure

def decodeNull : Decoder Content
  | .null => pure .null
  | r => Decoder.refuse r

namespace Content

def decoder : Decoder Content :=
  firstFit
    [fun r => .text <$> Decoder.text r,
     fun r => .parts <$> Decoder.list (ContentPart.decoder true) r,
     fun r => .blocks <$> Decoder.list Decoder.json r,
     decodeNull]

def toJson : Content → Json
  | .text s => .string s
  | .parts ps => .array (ps.map ContentPart.toJson)
  | .blocks bs => .array bs
  | .null => .null

end Content

namespace SystemPrompt

def decoder : Decoder SystemPrompt :=
  firstFit
    [fun r => .text <$> Decoder.text r,
     fun r => .blocks <$> Decoder.list Decoder.json r]

def toJson : SystemPrompt → Json
  | .text s => .string s
  | .blocks bs => .array bs

end SystemPrompt

/-! ## The text within -/

/-- The member `type` of a block. -/
def blockType? (block : Json) : Option String :=
  (block.get? "type").bind Json.string?

/-- The text of a block of text. -/
def blockText? (block : Json) : Option String :=
  if blockType? block = some "text" then (block.get? "text").bind Json.string? else none

def blockTexts (blocks : List Json) : List String :=
  blocks.filterMap blockText?

def joinLines (texts : List String) : String :=
  "\n".intercalate texts

namespace ContentPart

def text? : ContentPart → Option String
  | .text s => some s
  | .image _ => none

end ContentPart

namespace Content

/-- The text of all parts or blocks of text, one a line. -/
def joinedText : Content → String
  | .text s => s
  | .parts ps => joinLines (ps.filterMap ContentPart.text?)
  | .blocks bs => joinLines (blockTexts bs)
  | .null => ""

/-- The text of a turn that is one text. -/
def text? : Content → Option String
  | .text s => some s
  | _ => none

def isEmpty : Content → Bool
  | .text s => s.isEmpty
  | .parts ps => ps.isEmpty
  | .blocks bs => bs.isEmpty
  | .null => true

end Content

namespace SystemPrompt

/-- The text of the prompt, blocks of text one a line. -/
def joinedText : SystemPrompt → String
  | .text s => s
  | .blocks bs => joinLines (blockTexts bs)

end SystemPrompt

end ModelRelay.Chat
