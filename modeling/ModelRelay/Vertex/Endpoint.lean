import ModelRelay.Channel
import ModelRelay.Vertex.Regions

/-!
# Endpoints with regions

A model that is deployed in regions is addressed by its region, by the project that pays for it,
and by an id in which the date of the model stands behind an at sign.
-/

set_option autoImplicit false

namespace ModelRelay.Vertex

/-- The host that a region is put in front of. -/
def defaultHost : String := "aiplatform.googleapis.com"

/-- The version of the Messages protocol that a body names instead of a model. -/
def protocolVersion : String := "vertex-2023-10-16"

/-- Models whose id is not made from their name. -/
def namedIds : List (String × String) :=
  [("claude-3-5-sonnet-20241022", "claude-3-5-sonnet-v2@20241022")]

/-- A name and the date behind its last hyphen. -/
def splitDate? (model : String) : Option (List Char × List Char) :=
  let date := (model.toList.reverse.takeWhile (· != '-')).reverse
  let rest := model.toList.reverse.drop date.length
  match rest with
  | _ :: name =>
    if !name.isEmpty && date.length == 8 && date.all Char.isDigit then some (name.reverse, date)
    else none
  | [] => none

/-- The id of a model. -/
def modelId (model : String) : Except RelayError String :=
  match namedIds.lookup model, splitDate? model with
  | some id, _ => .ok id
  | none, some (name, date) => .ok (String.ofList (name ++ '@' :: date))
  | none, none => .error (.unresolved (.unsupported model))

/-- A part occurs somewhere in a text. -/
def occurs (part : List Char) : List Char → Bool
  | [] => part.isEmpty
  | c :: rest => part.isPrefixOf (c :: rest) || occurs part rest

/-- There is a scheme in front of the host. -/
def hasScheme (host : String) : Bool :=
  occurs "://".toList host.toList

/-- Where a region is. A host with a scheme stands for all of them. -/
def serverOf (host region : String) : String :=
  if hasScheme host then host else "https://" ++ region ++ "-" ++ host

/-- The URL of a call. -/
def url (regions : Regions) (choice : Nat) (route : Route) : Except RelayError String := do
  let region ← regions.pick choice route.actualModel
  let id ← modelId route.actualModel
  let some project := route.channel.project.filter (!·.isEmpty)
    | throw (.unresolved (.noProject route.channel.id))
  let host := if route.baseUrl.isEmpty then defaultHost else route.baseUrl
  return serverOf host region ++ "/v1/projects/" ++ project ++ "/locations/" ++ region ++
    "/publishers/anthropic/models/" ++ id ++ ":streamRawPredict"

end ModelRelay.Vertex
