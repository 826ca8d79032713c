import ModelRelay.Sse.Event
import ModelRelay.Sse.Frame

/-!
# Couriers

A provider's stream is a sequence of items; a decoder of the provider's family says what each event
means to the caller. A courier carries a stream from the one to the other. It is a machine with
three stages: it *reads* an item, it *sends* the frames of that item one by one, and it has *ended*
once the end signal has been decoded and everything is sent, or once anything went wrong. It never
reads while a frame waits. When the provider's side fails, one more frame tells the caller so; when
the caller's side fails, nothing more is sent.
-/

set_option autoImplicit false

namespace ModelRelay

/-- What a call came to: the text of the answer, the counts, and the body of an answer that was not
streamed. -/
structure Outcome where
  text : String
  usage : Chat.Usage
  body : Option Json := none
deriving Repr

namespace Delivery

open Sse

/-- What an event means to the caller. -/
structure Decoded where
  frames : List Frame := []
  text : String := ""
  usage : Chat.PartialUsage := {}
  /-- The event is the end signal. -/
  finished : Bool := false
deriving DecidableEq, Repr

/-- How the events of a provider are understood. -/
structure EventDecoder where
  /-- What has to be kept from event to event. -/
  State : Type
  provider : String
  start : State
  decode : State → Event → Except RelayError (State × Decoded)
  /-- The frames behind those of the end signal. -/
  closing : State → List Frame

/-- One thing that arrives from a provider. -/
inductive Item where
  | event (e : Event)
  /-- The connection broke, or its bytes are no text. -/
  | broken (detail : String)
  /-- The body is complete. -/
  | finished
deriving DecidableEq, Repr

/-- How far a stream has come, for those who watch it. -/
inductive Phase where
  | awaitingFirstEvent
  | forwarding
  | done
  | failed
deriving DecidableEq, Repr

/-- What the courier turns to when its frames are sent. -/
inductive Goal where
  | read
  | finish (outcome : Outcome)
  | fail (e : RelayError)
deriving Repr

inductive Stage where
  | reading
  /-- One frame is being sent and more wait behind it. -/
  | sending (frame : Frame) (waiting : List Frame) (goal : Goal)
  | ended (result : Except RelayError Outcome)

structure Courier (d : EventDecoder) where
  native : Bool
  /-- The estimate that stands in for a prompt's count. -/
  promptTokens : UInt32
  state : d.State := d.start
  text : String := ""
  usage : Chat.PartialUsage := {}
  phase : Phase := .awaitingFirstEvent
  stage : Stage := .reading

namespace Courier

variable {d : EventDecoder}

/-- Starts on frames, or turns to the goal if there are none. -/
def send (c : Courier d) (goal : Goal) : List Frame → Courier d
  | frame :: waiting => { c with stage := .sending frame waiting goal }
  | [] =>
    match goal with
    | .read => { c with stage := .reading }
    | .finish outcome => { c with phase := .done, stage := .ended (.ok outcome) }
    | .fail e => { c with phase := .failed, stage := .ended (.error e) }

/-- Fails, with a last frame that says so. -/
def fail (c : Courier d) (e : RelayError) : Courier d :=
  { c with phase := .failed }.send (.fail e) [Frame.ofError c.native e]

/-- Takes in what an event means. -/
def absorb (c : Courier d) (state : d.State) (decoded : Decoded) : Courier d :=
  let text := c.text ++ decoded.text
  let usage := c.usage.merge decoded.usage
  let c := { c with state, text, usage }
  if decoded.finished then
    let outcome := { text, usage := Chat.Usage.finalize usage c.promptTokens text : Outcome }
    c.send (.finish outcome) (decoded.frames ++ d.closing state)
  else c.send .read decoded.frames

/-- Takes an item from the provider. -/
def take (c : Courier d) : Item → Courier d
  | .event e =>
    match d.decode c.state e with
    | .ok (state, decoded) => c.absorb state decoded
    | .error e => c.fail e
  | .broken detail => c.fail (.stream (.interrupted d.provider detail))
  | .finished => c.fail (.stream (.unfinished d.provider))

/-- The frame that was being sent has been accepted. -/
def accepted (c : Courier d) : Courier d :=
  match c.stage with
  | .sending _ waiting goal =>
    let phase := if c.phase = .awaitingFirstEvent then .forwarding else c.phase
    { c with phase }.send goal waiting
  | _ => c

/-- The caller is gone or does not read. The frame that tells of a failure may be lost; the failure
stays what it was. -/
def lost (c : Courier d) (fault : CancelFault) : Courier d :=
  let result : Except RelayError Outcome :=
    match c.stage with
    | .sending _ _ (.fail e) => .error e
    | _ => .error (.cancelled fault)
  { c with phase := .failed, stage := .ended result }

/-- How many frames wait to be sent. -/
def pending (c : Courier d) : Nat :=
  match c.stage with
  | .sending _ waiting _ => waiting.length + 1
  | _ => 0

/-- The result, once there is one. -/
def result? (c : Courier d) : Option (Except RelayError Outcome) :=
  match c.stage with
  | .ended result => some result
  | _ => none

end Courier

end Delivery

end ModelRelay
