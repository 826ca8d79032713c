import ModelRelay.Proofs.Delivery.Reading
import ModelRelay.Provider.Adaptor

/-!
# Streamed answers

What a stream comes to for a caller who keeps reading, whatever the order in which its items come,
are read, sent and received (`EventDecoder.Carries`). **It is the script and the verdict of its
items** (`EventDecoder.carries_iff`). A streamed answer is the stream of the items of its body
(`Adaptor.Streams`), and the relay's own order is one of those (`streams_run`).

So a statement about all interleavings becomes one about two functions of the items: the script,
which is the frames that go out, and the verdict, which is what is billed. The same definition
serves answers of different providers that are compared with each other.
-/

set_option autoImplicit false

namespace ModelRelay

open Delivery Sse

namespace Delivery.EventDecoder

/-- A caller who keeps reading gets `frames` of some items, and the stream comes to `result`. The
items may be there from the beginning or come at any time. -/
def Carries (d : EventDecoder) (route : Route) (items : List Item) (frames : List Frame)
    (result : Except RelayError Outcome) : Prop :=
  ∃ (buffer patience : Nat) (first : List Item) (moves : List Move) (fin : Session d),
    Session.FullyRead (.ofItems first route.isNative route.promptTokens buffer patience) moves fin ∧
      first ++ Move.arrivals moves = items ∧ fin.received = frames ∧
      fin.courier.result? = some result

variable {d : EventDecoder} {route : Route} {items : List Item} {frames : List Frame}
  {result : Except RelayError Outcome}

/-- **What a stream comes to is settled by its items alone.** -/
theorem carries_iff : d.Carries route items frames result ↔
    d.script route.isNative d.start items = frames ∧
      d.verdict route.promptTokens d.start "" {} items = some result := by
  constructor
  · rintro ⟨buffer, patience, first, moves, fin, hread, hitems, hframes, hresult⟩
    obtain ⟨hreceived, hcomes⟩ := hread.comesTo
    rw [hitems] at hreceived hcomes
    exact ⟨hreceived.symm.trans hframes, hcomes.symm.trans hresult⟩
  · rintro ⟨hscript, hverdict⟩
    obtain ⟨moves, harrivals, hread⟩ :=
      Session.fullyRead_run_of_verdict route.isNative 0 0 hverdict
    have hitems : items ++ Move.arrivals moves = items := by rw [harrivals, List.append_nil]
    obtain ⟨hreceived, hcomes⟩ := hread.comesTo
    rw [hitems] at hreceived hcomes
    exact ⟨0, 0, items, moves, _, hread, hitems, hreceived.trans hscript, hcomes.trans hverdict⟩

/-- A stream that is understood up to its end signal. -/
theorem carries_iff_of_end {before rest : List Item} {told : List Decoded} {last : Event}
    {x : Decoded} {s s' : d.State} (hears : d.Hears d.start before told s)
    (hlast : d.decode s last = .ok (s', x)) (hfin : x.finished = true) :
    d.Carries route (before ++ .event last :: rest) frames result ↔
      frames = told.flatMap (·.frames) ++ (x.frames ++ d.closing s') ∧
        result = .ok
          { text := toldText told ++ x.text
            usage := Chat.Usage.finalize ((toldUsage {} told).merge x.usage) route.promptTokens
              (toldText told ++ x.text) } := by
  rw [carries_iff, script_of_hears hears, verdict_of_hears hears, script_of_end hlast hfin,
    verdict_of_end hlast hfin, String.empty_append, Option.some.injEq, eq_comm, @eq_comm _ result]

end Delivery.EventDecoder

namespace Adaptor

/-- A caller who keeps reading gets `frames` of a streamed answer, and the call comes to `result`:
the stream is that of the items of the answer. -/
def Streams (a : Adaptor) (route : Route) (fresh : Fresh) (answer : Provider.Answer)
    (frames : List Frame) (result : Except RelayError Outcome) : Prop :=
  (a.eventDecoder route fresh).Carries route answer.items frames result

variable {a : Adaptor} {route : Route} {fresh : Fresh} {answer : Provider.Answer}
  {frames : List Frame} {result : Except RelayError Outcome}

/-- The relay streams an answer that comes to a result in one of the orders that there are. -/
theorem streams_run
    (hverdict : (a.eventDecoder route fresh).verdict route.promptTokens
      (a.eventDecoder route fresh).start "" {} answer.items = some result)
    (sink : Sink) (hreader : sink.caller = {}) :
    ∃ frames, stream (a.eventDecoder route fresh) route sink answer.items = (frames, result) ∧
      a.Streams route fresh answer frames result := by
  obtain ⟨moves, harrivals, hread⟩ :=
    Session.fullyRead_run_of_verdict route.isNative sink.buffer sink.patience hverdict
  have hitems : answer.items ++ Move.arrivals moves = answer.items := by
    rw [harrivals, List.append_nil]
  have hresult := hread.comesTo.2
  rw [hitems, hverdict] at hresult
  refine ⟨_, ?_, sink.buffer, sink.patience, answer.items, moves, _, hread, hitems, rfl, hresult⟩
  rw [stream, hreader]
  refine congrArg (Prod.mk _) ?_
  exact congrArg (·.getD (.error (.cancelled .left))) hresult

/-- An answer that is understood up to its end signal. -/
theorem streams_iff_of_end {d : EventDecoder} (hd : a.eventDecoder route fresh = d)
    {before rest : List Item} {told : List Decoded} {last : Event} {x : Decoded} {s s' : d.State}
    (hitems : answer.items = before ++ .event last :: rest)
    (hears : d.Hears d.start before told s) (hlast : d.decode s last = .ok (s', x))
    (hfin : x.finished = true) :
    a.Streams route fresh answer frames result ↔
      frames = told.flatMap (·.frames) ++ (x.frames ++ d.closing s') ∧
        result = .ok
          { text := toldText told ++ x.text
            usage := Chat.Usage.finalize ((toldUsage {} told).merge x.usage) route.promptTokens
              (toldText told ++ x.text) } := by
  subst hd
  rw [Streams, hitems]
  exact EventDecoder.carries_iff_of_end hears hlast hfin

end Adaptor

/-! ## The decoders of the families

There are two decoders and three families, since two families speak one protocol. -/

theorem Adaptor.eventDecoder_of_ne {a : Adaptor} (h : a.family ≠ .openai) (route : Route)
    (fresh : Fresh) :
    a.eventDecoder route fresh = Claude.eventDecoder a.provider route fresh.id fresh.now := by
  rw [eventDecoder]
  cases hfamily : a.family with
  | openai => exact absurd hfamily h
  | anthropic | vertexClaude => rfl

theorem Adaptor.outcomeOf_of_ne {a : Adaptor} (h : a.family ≠ .openai) (route : Route)
    (fresh : Fresh) (body : Json) :
    a.outcomeOf route fresh body = Claude.outcomeOf a.provider route fresh.now body := by
  rw [outcomeOf]
  cases hfamily : a.family with
  | openai => exact absurd hfamily h
  | anthropic | vertexClaude => rfl

theorem OpenAi.decode_eq (s : eventDecoder.State) (e : Event) :
    eventDecoder.decode s e = (decodeEvent e).map fun decoded => ((), decoded) := by
  unfold eventDecoder
  dsimp only

theorem Claude.decode_eq (provider : String) (route : Route) (id : String) (created : Int)
    (s : (eventDecoder provider route id created).State) (e : Event) :
    (eventDecoder provider route id created).decode s e
      = decodeEvent provider route.isNative s e := by
  unfold eventDecoder
  dsimp only

end ModelRelay
