import ModelRelay.Chat.Content

/-!
# Content blocks of the Messages protocol

A turn is a text or a list of blocks. Blocks of a kind the relay has no type for are kept as they
came, and then the whole turn is.
-/

set_option autoImplicit false

namespace ModelRelay.Claude

/-- Where an image is. -/
inductive ImageSource where
  | base64 (mediaType data : String)
  | url (url : String)
deriving DecidableEq, Repr

inductive Block where
  | text (text : String)
  | image (source : ImageSource)
deriving DecidableEq, Repr

/-- What a turn says. -/
inductive Content where
  | text (text : String)
  | blocks (blocks : List Block)
  | raw (values : List Json)
deriving Repr

/-! ## Links to images -/

/-- The text behind a beginning that it must have. -/
def dropStart? (start s : List Char) : Option (List Char) :=
  if start.isPrefixOf s then some (s.drop start.length) else none

/-- Drops an ending if it is there. -/
def dropEnd (ending s : List Char) : List Char :=
  if ending.isSuffixOf s then s.take (s.length - ending.length) else s

namespace ImageSource

/-- The media type and the data of a `data:` link. A mark for base64 belongs to neither. -/
def ofDataLink? (link : List Char) : Option (List Char × List Char) := do
  let rest ← dropStart? "data:".toList link
  let media := rest.takeWhile (· != ',')
  match rest.drop media.length with
  | _ :: data => return (dropEnd ";base64".toList media, data)
  | [] => none

/-- The image that a link leads to: a `data:` link holds it. -/
def ofLink (link : String) : ImageSource :=
  match ofDataLink? link.toList with
  | some (media, data) => base64 (String.ofList media) (String.ofList data)
  | none => url link

def toJson : ImageSource → Json
  | base64 media data =>
    .object [("type", .string "base64"), ("media_type", .string media), ("data", .string data)]
  | url link => .object [("type", .string "url"), ("url", .string link)]

/-- The fields of inline data read so far. -/
structure Slots where
  media : Option String := none
  data : Option String := none

open Decoder in
def putData (s : Slots) (field : String) (r : Reading) : Except Mismatch Slots := do
  match field with
  | "media_type" => return { s with media := ← fill field s.media Decoder.text r }
  | "data" => return { s with data := ← fill field s.data Decoder.text r }
  | _ => do skip r; return s

def putLink (s : Option String) (field : String) (r : Reading) :
    Except Mismatch (Option String) := do
  match field with
  | "url" => Decoder.fill field s Decoder.text r
  | _ => do Decoder.skip r; return s

/-- The rest of a source whose tag is known. -/
def body : String → Decoder ImageSource
  | "base64" => fun r => do
    let s ← Decoder.record [("media_type", false), ("data", false)] putData {} r
    return base64 (← Decoder.need "media_type" s.media) (← Decoder.need "data" s.data)
  | _ => fun r => do
    return url (← Decoder.need "url" (← Decoder.record [("url", false)] putLink none r))

/-- A source in held data. -/
def decoder : Decoder ImageSource :=
  Decoder.tagged ⟨["base64", "url"], none, true⟩ body

end ImageSource

namespace Block

def toJson : Block → Json
  | text s => .object [("type", .string "text"), ("text", .string s)]
  | image source => .object [("type", .string "image"), ("source", source.toJson)]

def putSource (s : Option ImageSource) (field : String) (r : Reading) :
    Except Mismatch (Option ImageSource) := do
  match field with
  | "source" => Decoder.fill field s ImageSource.decoder r
  | _ => do Decoder.skip r; return s

/-- The rest of a block whose tag is known. -/
def body : String → Decoder Block
  | "text" => fun r => do
    return text (← Decoder.need "text"
      (← Decoder.record [("text", false)] Chat.ContentPart.putText none r))
  | _ => fun r => do
    return image (← Decoder.need "source" (← Decoder.record [("source", false)] putSource none r))

/-- A block in held data. -/
def decoder : Decoder Block :=
  Decoder.tagged ⟨["text", "image"], none, true⟩ body

end Block

namespace Content

def decoder : Decoder Content :=
  Chat.firstFit
    [fun r => .text <$> Decoder.text r,
     fun r => .blocks <$> Decoder.list Block.decoder r,
     fun r => .raw <$> Decoder.list Decoder.json r]

def toJson : Content → Json
  | text s => .string s
  | blocks bs => .array (bs.map Block.toJson)
  | raw values => .array values

/-- The content as JSON blocks, a text as one block. Blocks without a type have their members in
order of name, typed ones that join them too. -/
def toValues : Content → List Json
  | text s => [(Block.text s).toJson.canonical]
  | blocks bs => bs.map fun b => b.toJson.canonical
  | raw values => values

/-- One turn out of two. Blocks stay typed as long as both are. -/
def append : Content → Content → Content
  | raw values, next => raw (values ++ next.toValues)
  | first, raw values => raw (first.toValues ++ values)
  | first, next => blocks (typed first ++ typed next)
where
  /-- The blocks of content that has a type. -/
  typed : Content → List Block
    | text s => [.text s]
    | blocks bs => bs
    | raw _ => []

end Content

end ModelRelay.Claude
