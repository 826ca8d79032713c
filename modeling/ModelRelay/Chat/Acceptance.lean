import ModelRelay.Chat.Request
import ModelRelay.Error
import ModelRelay.Text.Blank

/-!
# Accepting requests

Reading a body settles its types; accepting a request settles the rest. It needs a model and a
message, and its temperature and penalties must lie in their ranges. The first fault in that order
is reported.
-/

set_option autoImplicit false

namespace ModelRelay.Chat.Request

/-- Reads a body. -/
def ofBytes (body : List UInt8) : Except RelayError Request :=
  (decoder.ofBytes body).mapError fun m => .invalid (.body m)

/-- What is wrong with a request, first things first. -/
def fault? (r : Request) : Option RequestFault :=
  if Text.isBlankText r.model then some .noModel
  else if r.messages.isEmpty then some .noMessages
  else if let some x := r.temperature.filter (!Binary.isBetween 0 2 ·) then some (.temperature x)
  else if let some x := r.presencePenalty.filter (!Binary.isBetween 2 2 ·) then
    some (.presencePenalty x)
  else if let some x := r.frequencyPenalty.filter (!Binary.isBetween 2 2 ·) then
    some (.frequencyPenalty x)
  else none

/-- Accepts a request. -/
def accept (r : Request) : Except RelayError Unit :=
  match r.fault? with
  | some fault => throw (.invalid fault)
  | none => pure ()

end ModelRelay.Chat.Request
