import ModelRelay.Delivery.Session
import ModelRelay.Json.Reader
import ModelRelay.Text.Blank

/-!
# What a provider answers

The status and the body of an answer, and what the relay makes of it before it looks at any
particular protocol. An answer outside the 200s is the provider's refusal, and so is a body with an
error in it, whatever its status says.
-/

set_option autoImplicit false

namespace ModelRelay.Provider

/-- How a body ends. -/
inductive Ending where
  | complete
  /-- The connection broke off. -/
  | broken (detail : String)
  /-- Nothing more comes, and the connection stays open. -/
  | silent
deriving DecidableEq, Repr

/-- A provider's answer. -/
structure Answer where
  status : Nat := 200
  body : ByteArray
  ending : Ending := .complete

namespace Answer

def isSuccess (a : Answer) : Bool :=
  200 ≤ a.status && a.status < 300

def bytes (a : Answer) : List UInt8 :=
  a.body.data.toList

/-- The whole body, for one who waits for it no longer than the time for the call: a body that falls
silent is lost when that time is up. -/
def wholeBody? (a : Answer) : Except String (List UInt8) :=
  match a.ending with
  | .complete => .ok a.bytes
  | .broken detail => .error detail
  | .silent => .error "operation timed out"

/-- The body, for one who waits for its end as long as that may take. Nothing is kept of a body that
broke off, and on a body that falls silent the wait does not end. -/
def finalBody? (a : Answer) : Option (List UInt8) :=
  match a.ending with
  | .complete => some a.bytes
  | .broken _ => some []
  | .silent => none

end Answer

/-! ## Refusals -/

/-- The refusal that an error member describes, if there is one: an object with a message and a
type, or a text. -/
def refusalOf? (provider : String) (status : Nat) (value : Json) : Option RelayError :=
  match value.get? "error" with
  | some (.object members) =>
    let textOf (name : String) := (members.lookup name).bind Json.string?
    some (.refused provider status ((textOf "message").getD "unknown upstream error")
      (textOf "type"))
  | some (.string message) => some (.refused provider status message none)
  | _ => none

/-- How many characters of a body that is no JSON are quoted. -/
def quotedLength : Nat := 512

/-- The beginning of a text, marked if there is more. -/
def clip (limit : Nat) (s : List Char) : List Char :=
  if s.length ≤ limit then s else s.take limit ++ ['.', '.', '.']

/-- What a body without an error member says: its text, or only that it came. -/
def rawMessage (provider : String) (status : Nat) (body : List UInt8) : String :=
  match Text.trimChars (Utf8.lossy body).toList with
  | [] => provider ++ " returned status " ++ status.repr
  | text => String.ofList (clip quotedLength text)

/-- The refusal that an answer outside the 200s is. -/
def refusal (provider : String) (status : Nat) (body : List UInt8) : RelayError :=
  ((Json.ofBytes? body).bind (refusalOf? provider status)).getD
    (.refused provider status (rawMessage provider status body) none)

namespace Answer

/-- The body of an answer in the 200s as JSON. The body is read whole before the status is looked
at, and within the time for the call. -/
def readJson (provider : String) (a : Answer) : Except RelayError Json := do
  let body ← a.wholeBody?.mapError fun detail => .unreachable provider (.bodyLost detail)
  if !a.isSuccess then throw (refusal provider a.status body)
  let value ← (Decoder.ofBytes Decoder.json body).mapError fun m => .undecodable provider (.body m)
  match refusalOf? provider 502 value with
  | some e => throw e
  | none => return value

/-- Lets an answer in the 200s pass. Of any other the body is read up to its end. A call that is to
be streamed has no time limit, so if the body has no end there is no result. -/
def ensureSuccess (provider : String) (a : Answer) : Option (Except RelayError Answer) :=
  if a.isSuccess then some (.ok a)
  else a.finalBody?.map fun body => .error (refusal provider a.status body)

open Delivery in
/-- The body as items of a stream: its events, and how it ends. Bytes that are no text come to
light at the end. -/
def items (a : Answer) : List Item :=
  let (events, whole) := Sse.Event.ofBytes a.bytes
  events.map .event ++
    match a.ending with
    | .complete => if whole then [.finished] else [.broken "invalid text"]
    | .broken detail => [.broken detail]
    | .silent => []

end Answer

end ModelRelay.Provider
