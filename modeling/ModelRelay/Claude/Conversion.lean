import ModelRelay.Channel
import ModelRelay.Chat.Links
import ModelRelay.Claude.Request
import ModelRelay.Text.Blank

/-!
# From chat requests to the Messages protocol

Instructions move to the top, answers of tools count as the user's, turns without content are left
out, and neighbours of one role become one turn. A model that sees takes links in a user's text as
images. Callers who speak the protocol themselves keep what the relay has no type for.
-/

set_option autoImplicit false

namespace ModelRelay.Claude

/-- The limit on an answer of a request that sets none. -/
def defaultMaxTokens : UInt32 := 4096

/-- The model sees images. -/
def isVisionModel (model : String) : Bool :=
  "claude-3".toList.isPrefixOf model.toList

/-- Names without a date, and the dated models they stand for. -/
def pinnedModels : List (String × String) :=
  [("claude-3-opus", "claude-3-opus-20240229")]

/-- The dated model that a name without a date stands for. -/
def pinnedModel? (model : String) : Option String :=
  pinnedModels.lookup model

namespace Content

def ofPart : Chat.ContentPart → Block
  | .text s => .text s
  | .image i => .image (.ofLink i.url)

/-- The content of a turn that is a text; with `links` its links become images. -/
def ofText (links : Bool) (s : String) : Content :=
  if links && Chat.Links.occursIn s then blocks ((Chat.Links.split s).map ofPart) else text s

/-- The content of a turn, if it has any. -/
def ofChat? (links : Bool) : Chat.Content → Option Content
  | .text s => some (ofText links s)
  | .parts ps => some (blocks (ps.map ofPart))
  | .blocks values => some (raw values)
  | .null => none

end Content

/-- Who a turn of the conversation comes from. Instructions are not part of it. -/
def roleOf? : Chat.Role → Option String
  | .system | .developer => none
  | .assistant => some "assistant"
  | .user | .tool => some "user"

/-- The turn that a message contributes. -/
def Turn.ofMessage? (vision : Bool) (m : Chat.Message) : Option Turn := do
  let role ← roleOf? m.role
  let content ← Content.ofChat? (vision && role == "user") m.content
  return ⟨role, content⟩

/-- Joins a turn to the one before it if both are of one role. `turns` holds the last turn first. -/
def joinTurn (turns : List Turn) (next : Turn) : List Turn :=
  match turns with
  | last :: before =>
    if last.role = next.role then
      { last with content := last.content.append next.content } :: before
    else next :: turns
  | [] => [next]

/-- Joins neighbours of one role. -/
def joinTurns (turns : List Turn) : List Turn :=
  (turns.foldl joinTurn []).reverse

/-- The texts of all instructions, those at the top first. -/
def instructions (r : Chat.Request) : List String :=
  (r.system.map Chat.SystemPrompt.joinedText).toList ++
    (r.messages.filter (·.role.isInstruction)).map (·.content.joinedText)

/-- All texts that are not blank, one a line. -/
def joinedInstructions (r : Chat.Request) : Option Chat.SystemPrompt :=
  match (instructions r).filter (!Text.isBlankText ·) with
  | [] => none
  | texts => some (.text (Chat.joinLines texts))

/-- The instructions at the top: blocks as they are if the caller speaks the protocol and no turn
adds to them, else the texts. -/
def systemOf (native : Bool) (r : Chat.Request) : Option Chat.SystemPrompt :=
  match r.system with
  | some (.blocks blocks) =>
    if native && !r.messages.any (·.role.isInstruction) then some (.blocks blocks)
    else joinedInstructions r
  | _ => joinedInstructions r

/-- The request for a provider of the Messages protocol. -/
def Request.ofChat (r : Chat.Request) (vision : Bool) (protocol : Protocol) : Request :=
  let native := protocol == .messages
  { model := r.model
    turns := joinTurns (r.messages.filterMap (Turn.ofMessage? vision))
    system := systemOf native r
    maxTokens := r.outputLimit.getD defaultMaxTokens
    temperature := r.temperature
    topP := r.topP
    topK := r.topK
    stopSequences := r.stopList
    stream := r.stream
    extra := if native then r.extra else [] }

end ModelRelay.Claude
