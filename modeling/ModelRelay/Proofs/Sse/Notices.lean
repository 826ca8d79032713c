import ModelRelay.Proofs.Chat.Chunks
import ModelRelay.Proofs.Json.Controls
import ModelRelay.Proofs.Sse.RoundTrip

/-!
# What the relay says in words of its own

Some frames pass on what a provider sent; all others the relay makes itself, of a chunk or of a
failure. Their payload is the text of a value, and that is one line, whatever strings are in it. So
**each of these frames is read as one event, and a stream of them as these events and the end
signal** (`notices_are_read_back`), and the data of an event is decoded to the very chunk, or to the
very body of the failure, that the frame was made of.

Three things come together. The text of a value has no control character, hence no break. A frame of
one line is read as its event. And a value that the relay makes survives its text, so that its
decoder takes it back. Nothing is asked of the strings, which may be whatever a provider or a caller
sent; of a chunk it is asked that the time of its making is a number of 64 bits.

Frames that pass on what a provider sent are not treated here: their payload may have line feeds.
-/

set_option autoImplicit false

namespace ModelRelay

open Decoder Json

/-! ## Bodies of failures

The detail of a failure, and the envelopes of the two protocols around it. Each is read as it was
written. -/

namespace ErrorDetail

theorem survives_toJson (d : ErrorDetail) (room : ℕ) : d.toJson.Survives (room + 1) := by
  have hcode : ∀ j ∈ d.code.map Json.string, j.Survives room :=
    survives_map survives_string d.code
  apply survives_ofMembers
  simp only [List.forall_mem_cons, Option.mem_some_iff, forall_eq']
  exact ⟨survives_string _, survives_string _, hcode, List.forall_mem_nil _⟩

theorem decoder_toJson (d : ErrorDetail) : decoder (.ofJson d.toJson) = .ok d := by
  obtain ⟨message, kind, code⟩ := d
  cases code <;> rfl

end ErrorDetail

namespace ErrorBody

theorem survives_toJson (b : ErrorBody) (room : ℕ) : b.toJson.Survives (room + 2) := by
  apply survives_object
  simp only [List.forall_mem_cons]
  exact ⟨b.error.survives_toJson room, List.forall_mem_nil _⟩

theorem decoder_toJson (b : ErrorBody) : decoder (.ofJson b.toJson) = .ok b := by
  have hdetail := b.error.decoder_toJson
  simp only [toJson, Reading.ofJson, Reading.ofMembers, decoder, record, members, put, fill,
    Option.isSome_none, Bool.false_eq_true, if_false, hdetail]
  rfl

end ErrorBody

namespace NativeErrorBody

theorem survives_toJson (b : NativeErrorBody) (room : ℕ) : b.toJson.Survives (room + 2) := by
  apply survives_object
  simp only [List.forall_mem_cons]
  exact ⟨survives_string _, b.error.survives_toJson room, List.forall_mem_nil _⟩

theorem decoder_toJson (b : NativeErrorBody) : decoder (.ofJson b.toJson) = .ok b := by
  have hdetail := b.error.decoder_toJson
  simp only [toJson, Reading.ofJson, Reading.ofMembers, decoder, record, members, put, fill,
    Option.isSome_none, Bool.false_eq_true, if_false, hdetail]
  rfl

end NativeErrorBody

namespace Sse

/-! ## Notices -/

/-- What the relay tells the caller of a stream in words of its own: a piece of the answer, or how
the stream failed, in the envelope of the Messages protocol or in that of chat completions. -/
inductive Notice where
  | chunk (c : Chat.Chunk)
  | failure (native : Bool) (e : RelayError)

namespace Notice

def frame : Notice → Frame
  | .chunk c => .ofChunk c
  | .failure native e => .ofError native e

/-- The moment at which a chunk was made is a whole number of 64 bits. -/
def IsSound : Notice → Prop
  | .chunk c => IsInt64 c.created
  | .failure _ _ => True

/-- The value whose text is the payload. -/
def value : Notice → Json
  | .chunk c => c.toJson
  | .failure native e => e.envelope native

/-- An event tells a notice: it has the notice's name, and its data is a JSON text that says what
the notice says, and nothing else. -/
inductive IsToldBy : Notice → Event → Prop where
  | chunk {c : Chat.Chunk} {data : String} (whole : ofText? data = some c.toJson.canonical)
      (read : Chat.Chunk.decoder.ofText data = .ok c) : IsToldBy (.chunk c) ⟨"message", data⟩
  | failure {e : RelayError} {data : String}
      (whole : ofText? data = some e.toBody.toJson.canonical)
      (read : ErrorBody.decoder.ofText data = .ok e.toBody) :
      IsToldBy (.failure false e) ⟨"message", data⟩
  | nativeFailure {e : RelayError} {data : String}
      (whole : ofText? data = some e.toNativeBody.toJson.canonical)
      (read : NativeErrorBody.decoder.ofText data = .ok e.toNativeBody) :
      IsToldBy (.failure true e) ⟨"error", data⟩

theorem payload_frame (n : Notice) : n.frame.payload = n.value.print := by
  cases n with
  | chunk c => rfl
  | failure native e => cases native <;> rfl

/-- The payload is one line, for the text of a value has no control character in it. -/
theorem isLine_payload (n : Notice) : IsLine n.frame.payload.toList := by
  rw [payload_frame]
  constructor
  · intro hlf
    exact absurd (hasNoControl_print n.value _ hlf) (by decide)
  · intro hcr
    exact absurd (hasNoControl_print n.value _ hcr) (by decide)

theorem name_told (n : Notice) :
    n.frame.told.name = "message" ∨ n.frame.told.name = "error" := by
  match n with
  | .chunk _ => exact .inl rfl
  | .failure false _ => exact .inl rfl
  | .failure true _ => exact .inr rfl

theorem isClean_told (n : Notice) : n.frame.told.IsClean := by
  have hdata : '\r' ∉ n.frame.told.data.toList := by
    rw [Frame.data_told]
    exact n.isLine_payload.2
  rcases n.name_told with hname | hname
  · exact ⟨hname ▸ by decide, hname ▸ ⟨by decide, by decide⟩, hdata⟩
  · exact ⟨hname ▸ by decide, hname ▸ ⟨by decide, by decide⟩, hdata⟩

theorem isToldBy_told {n : Notice} (h : n.IsSound) : n.IsToldBy n.frame.told := by
  match n, h with
  | .chunk c, h =>
    have hsurvives := c.survives_toJson h (Draft.depth - 4)
    exact .chunk hsurvives.ofText?_print (c.ofText_print h)
  | .failure false e, _ =>
    have hsurvives := e.toBody.survives_toJson (Draft.depth - 2)
    exact .failure hsurvives.ofText?_print
      ((hsurvives.ofText_print _).trans e.toBody.decoder_toJson)
  | .failure true e, _ =>
    have hsurvives := e.toNativeBody.survives_toJson (Draft.depth - 2)
    exact .nativeFailure hsurvives.ofText?_print
      ((hsurvives.ofText_print _).trans e.toNativeBody.decoder_toJson)

end Notice

/-! ## Frames of notices -/

/-- A frame that is read as the one event that it is meant to tell. -/
structure Frame.IsOneEvent (f : Frame) : Prop where
  clean : f.told.IsClean
  line : '\n' ∉ f.payload.toList

theorem Notice.isOneEvent (n : Notice) : n.frame.IsOneEvent :=
  ⟨n.isClean_told, n.isLine_payload.1⟩

theorem isOneEvent_done : Frame.done.IsOneEvent :=
  ⟨⟨by decide, ⟨by decide, by decide⟩, by decide⟩, by decide⟩

/-- The bytes of frames, as they go out one behind the other. -/
def wire (frames : List Frame) : List UInt8 :=
  (String.join (frames.map Frame.encode)).toUTF8.data.toList

theorem ofBytes_wire {frames : List Frame} (h : ∀ f ∈ frames, f.IsOneEvent) :
    Event.ofBytes (wire frames) = (frames.map Frame.told, true) :=
  (ofBytes_encode_iff fun f hf => (h f hf).clean).mpr fun f hf => (h f hf).line

/-- **Every chunk and every failure is read as one event that tells it, and any number of them with
the end signal behind them as these events, in their order, and the end signal.**

What stands behind the name of the field is one line, because JSON is printed without breaks, and a
frame ends with a blank line. So the reader is at the start again behind each of them. -/
theorem notices_are_read_back {notices : List Notice} (h : ∀ n ∈ notices, n.IsSound) :
    ∃ events : List Event,
      List.Forall₂
        (fun n event => Event.ofBytes (wire [n.frame]) = ([event], true) ∧ n.IsToldBy event)
        notices events ∧
      Event.ofBytes (wire (notices.map Notice.frame ++ [.done]))
        = (events ++ [⟨"message", "[DONE]"⟩], true) := by
  refine ⟨notices.map fun n => n.frame.told, ?_, ?_⟩
  · rw [List.forall₂_map_right_iff, List.forall₂_same]
    intro n hn
    have hread := ofBytes_wire (List.forall_mem_singleton.mpr n.isOneEvent)
    exact ⟨hread, Notice.isToldBy_told (h n hn)⟩
  · have hframes : ∀ f ∈ notices.map Notice.frame ++ [Frame.done], f.IsOneEvent := by
      intro f hf
      rcases List.mem_append.mp hf with hf | hf
      · obtain ⟨n, -, rfl⟩ := List.mem_map.mp hf
        exact n.isOneEvent
      · rw [List.mem_singleton.mp hf]
        exact isOneEvent_done
    rw [ofBytes_wire hframes, List.map_append, List.map_map]
    rfl

/-- Line breaks in a model's name, in a piece of text and in a provider's message split nothing. -/
theorem broken_lines_are_read_back :
    let piece : Chat.Chunk :=
      .ofDelta "id\r\n" "m\n\ndata: x" (-1) (some " \"\r\n\n: \u2028") none
    let refusal : RelayError := .refused "openai" 500 "a\n\nevent: b\r" (some "\n")
    let notices : List Notice := [.chunk piece, .failure true refusal, .failure false refusal]
    (∀ n ∈ notices, n.IsSound) ∧
      ∃ first second third : Event,
        Notice.IsToldBy (.chunk piece) first ∧ Notice.IsToldBy (.failure true refusal) second ∧
        Notice.IsToldBy (.failure false refusal) third ∧
        Event.ofBytes (wire (notices.map Notice.frame ++ [.done]))
          = ([first, second, third, ⟨"message", "[DONE]"⟩], true) := by
  intro piece refusal notices
  have hsound : ∀ n ∈ notices, n.IsSound := by
    simp only [notices, List.forall_mem_cons]
    exact ⟨⟨by decide, by decide⟩, trivial, trivial, List.forall_mem_nil _⟩
  obtain ⟨events, htold, hread⟩ := notices_are_read_back hsound
  simp only [notices, List.forall₂_cons_left_iff, List.forall₂_nil_left_iff] at htold
  obtain ⟨first, _, ⟨-, hfirst⟩, ⟨second, _, ⟨-, hsecond⟩, ⟨third, _, ⟨-, hthird⟩, rfl, rfl⟩, rfl⟩,
    rfl⟩ := htold
  exact ⟨hsound, first, second, third, hfirst, hsecond, hthird, hread⟩

end Sse

end ModelRelay
