import ModelRelay.Proofs.Provider.Streaming
import ModelRelay.Proofs.Sse.RoundTrip
import ModelRelay.Proofs.Fallible

/-!
# Streams that are passed on

Two kinds of stream reach the caller as they come: chunks of chat completions, and the events of the
Messages protocol for callers who speak it. The relay passes on every event up to the end signal
that is not blank, without blanks around its data (`Adaptor.forwarded`).

The caller reads these events and no others **if and only if no data that is passed on has a line
feed within** (`readBack_iff`). A provider may well send such data, for JSON may be spread over
lines.

Two facts are put together. Which frames are sent is an induction along the events of the answer,
one for both kinds of stream: all it needs of a decoder is that what is sent for an event, and
whether the stream ends with it, depends on this event alone (`PassesOn`). How frames are read on
the other side is known of any frames, and there the line feeds come in.

The statement is about streams that come to their end. One that fails on the way tells of the
failure in a last frame, which is no event of the provider's.
-/

set_option autoImplicit false

namespace ModelRelay

open Delivery Sse

/-! ## Decoders that pass events on

What such a decoder sends is said by two functions of an event, and by the frames that it sends at
the end. -/

/-- The events up to the first that is a stop, and that one. -/
def through (stops : Event → Bool) : List Event → List Event
  | [] => []
  | e :: rest => if stops e then [e] else e :: through stops rest

theorem mem_of_mem_through {stops : Event → Bool} {e : Event} {events : List Event}
    (h : e ∈ through stops events) : e ∈ events := by
  induction events with
  | nil => exact h
  | cons first rest ih =>
    rw [through] at h
    split at h
    · rw [List.mem_singleton.mp h]
      exact List.mem_cons_self
    · rcases List.mem_cons.mp h with rfl | h
      · exact List.mem_cons_self
      · exact List.mem_cons_of_mem _ (ih h)

/-- What a decoder sends depends on nothing but the event, and so does where it stops. -/
structure PassesOn (d : EventDecoder) (stops : Event → Bool) (passes : Event → List Frame)
    (closing : List Frame) : Prop where
  decoded : ∀ {s : d.State} {e : Event} {s' : d.State} {x : Decoded}, d.decode s e = .ok (s', x) →
    x.finished = stops e ∧ x.frames = passes e
  closed : ∀ s, d.closing s = closing

theorem verdict_ne_ok {d : EventDecoder} {promptTokens : UInt32} {s : d.State} {text : String}
    {usage : Chat.PartialUsage} {rest : List Item} {outcome : Outcome}
    (hrest : ∀ e, Item.event e ∉ rest) :
    d.verdict promptTokens s text usage rest ≠ some (.ok outcome) := by
  intro h
  match rest with
  | [] => nomatch h
  | .event e :: _ => exact hrest e List.mem_cons_self
  | .broken _ :: _ => nomatch h
  | .finished :: _ => nomatch h

/-- **The frames of a stream that comes to its end are what its events pass on**, up to the end
signal, and then the closing ones. -/
theorem PassesOn.script {d : EventDecoder} {stops : Event → Bool} {passes : Event → List Frame}
    {closing : List Frame} (h : PassesOn d stops passes closing) (native : Bool)
    {promptTokens : UInt32} {s : d.State} {text : String} {usage : Chat.PartialUsage}
    {events : List Event} {rest : List Item} {outcome : Outcome}
    (hrest : ∀ e, Item.event e ∉ rest)
    (hok : d.verdict promptTokens s text usage (events.map .event ++ rest) = some (.ok outcome)) :
    ∃ before last, through stops events = before ++ [last] ∧ stops last = true ∧
      (∀ e ∈ before, stops e = false) ∧
      d.script native s (events.map .event ++ rest)
        = before.flatMap passes ++ passes last ++ closing := by
  induction events generalizing s text usage with
  | nil => exact absurd hok (verdict_ne_ok hrest)
  | cons e events ih =>
    rw [List.map_cons, List.cons_append] at hok ⊢
    cases hdec : d.decode s e with
    | error fault =>
      rw [EventDecoder.verdict, hdec] at hok
      cases hok
    | ok r =>
      obtain ⟨s', x⟩ := r
      obtain ⟨hstops, hframes⟩ := h.decoded hdec
      rw [through]
      -- The first event that finishes is the last one that is passed on.
      cases hfin : x.finished with
      | true =>
        rw [hfin] at hstops
        refine ⟨[], e, ?_, hstops.symm, fun _ he => absurd he List.not_mem_nil, ?_⟩
        · rw [← hstops, if_pos rfl]
          rfl
        · rw [EventDecoder.script_of_end hdec hfin, hframes, h.closed]
          rfl
      | false =>
        rw [hfin] at hstops
        rw [EventDecoder.verdict, hdec] at hok
        simp only [hfin, Bool.false_eq_true, if_false] at hok
        obtain ⟨before, last, hthrough, hlast, hbefore, hscript⟩ := ih hok
        refine ⟨e :: before, last, ?_, hlast, ?_, ?_⟩
        · rw [← hstops, if_neg Bool.false_ne_true, hthrough]
          rfl
        · intro b hb
          rcases List.mem_cons.mp hb with rfl | hb
          · exact hstops.symm
          · exact hbefore b hb
        · rw [EventDecoder.script, hdec]
          simp only [hfin, Bool.false_eq_true, if_false]
          rw [hscript, hframes, List.flatMap_cons]
          simp only [List.append_assoc]

/-! ## What each family passes on

Of an event that is blank, nothing is passed on. The end signal of chat completions is not passed on
either, but sent anew. -/

/-- There is nothing but blanks in the data. -/
def isBlankEvent (e : Event) : Bool :=
  (Text.trim e.data).isEmpty

/-- If every event is passed on as one, or not at all, the frames of all tell the events that are
not blank. -/
theorem flatMap_passes {passes : Event → List Frame} {f : Event → Event} {events : List Event}
    (h : ∀ e ∈ events, (passes e).map Frame.told = if isBlankEvent e then [] else [f e]) :
    (events.flatMap passes).map Frame.told
      = (events.filter fun e => !isBlankEvent e).map f := by
  induction events with
  | nil => rfl
  | cons e events ih =>
    rw [List.flatMap_cons, List.map_append, h e List.mem_cons_self, List.filter_cons,
      ih fun e he => h e (List.mem_cons_of_mem _ he)]
    cases isBlankEvent e <;> rfl

namespace OpenAi

/-- The end signal of chat completions. -/
def isDone (e : Event) : Bool :=
  Text.trim e.data == "[DONE]"

def passes (e : Event) : List Frame :=
  if isBlankEvent e || isDone e then [] else [.data (Text.trim e.data)]

theorem decode_of_ok {s : eventDecoder.State} {e : Event} {x : Decoded}
    (h : decodeEvent e = .ok x) : eventDecoder.decode s e = .ok (s, x) := by
  rw [decode_eq, h]
  rfl

/-- A chunk is passed on without blanks around it, and its decoder never looks back. -/
theorem passesOn : PassesOn eventDecoder isDone passes [.done] where
  decoded {s e s' x} h := by
    rw [decode_eq] at h
    obtain ⟨x', hx, heq⟩ := exists_of_map_ok h
    obtain rfl : x' = x := congrArg Prod.snd heq
    unfold decodeEvent at hx
    dsimp only at hx
    split at hx
    · rename_i hblank
      have hdone : isDone e = false := by
        rw [isDone, String.isEmpty_iff.mp hblank]
        rfl
      rw [← Except.ok.inj hx, hdone, passes, isBlankEvent, hblank]
      exact ⟨rfl, rfl⟩
    · rename_i hblank
      split at hx
      · rename_i hdata
        have hdone : isDone e = true := beq_iff_eq.mpr hdata
        rw [← Except.ok.inj hx, passes, hdone, Bool.or_true]
        exact ⟨rfl, rfl⟩
      · rename_i hdata
        have hdone : isDone e = false := beq_eq_false_iff_ne.mpr hdata
        have hpasses : passes e = [.data (Text.trim e.data)] := by
          rw [passes, isBlankEvent, hdone, Bool.or_false, if_neg hblank]
        obtain ⟨value, -, hx⟩ := exists_of_bind_ok hx
        rw [hdone, hpasses]
        split at hx
        · nomatch hx
        · obtain ⟨g, -, hx⟩ := exists_of_bind_ok hx
          rw [← Except.ok.inj hx]
          exact ⟨rfl, rfl⟩
  closed _ := rfl

theorem told_script {native : Bool} {promptTokens : UInt32} {events : List Event}
    {rest : List Item} {outcome : Outcome} (hrest : ∀ e, Item.event e ∉ rest)
    (hok : eventDecoder.verdict promptTokens eventDecoder.start "" {} (events.map .event ++ rest)
      = some (.ok outcome)) :
    (eventDecoder.script native eventDecoder.start (events.map .event ++ rest)).map Frame.told
      = ((through isDone events).filter fun e => !isBlankEvent e).map
          fun e => ⟨"message", Text.trim e.data⟩ := by
  obtain ⟨before, last, hthrough, hlast, hbefore, hscript⟩ := passesOn.script native hrest hok
  have hdata : Text.trim last.data = "[DONE]" := beq_iff_eq.mp hlast
  have hblank : isBlankEvent last = false := by
    rw [isBlankEvent, hdata]
    rfl
  have hpasses : ∀ e ∈ before, (passes e).map Frame.told
      = if isBlankEvent e then [] else [⟨"message", Text.trim e.data⟩] := by
    intro e he
    rw [passes, hbefore e he, Bool.or_false]
    cases isBlankEvent e <;> rfl
  rw [hscript, hthrough, List.filter_append, List.map_append, List.map_append, List.map_append,
    flatMap_passes hpasses, passes, hlast, Bool.or_true]
  -- The end signal is not among the chunks; the closing frame tells it.
  simp [hblank, hdata, Frame.told]

end OpenAi

namespace Claude

/-- The end signal of the Messages protocol. -/
def isStop (provider : String) (e : Event) : Bool :=
  match readEvent provider (Text.trim e.data) with
  | .ok .messageStop => !isBlankEvent e
  | _ => false

def passes (e : Event) : List Frame :=
  if isBlankEvent e then [] else [.event e.name (Text.trim e.data)]

/-- Of all that an event may tell only the end ends the stream. -/
theorem finished_of_decode {h h' : StreamHead} {provider : String} {told : StreamEvent}
    {x : Decoded} (hok : h.decode provider told = .ok (h', x)) :
    x.finished = true ↔ told = .messageStop := by
  cases told with
  | messageStop =>
    rw [← (Prod.mk.inj (Except.ok.inj hok)).2]
    simp
  | messageStart _ _ _ | messageDelta _ _ | blockStop | ping | unknown =>
    rw [← (Prod.mk.inj (Except.ok.inj hok)).2]
    simp
  | blockStart text =>
    rw [StreamHead.decode] at hok
    split at hok
    all_goals
      rw [← (Prod.mk.inj (Except.ok.inj hok)).2]
      simp
  | blockDelta text =>
    cases text with
    | some text | none =>
      rw [← (Prod.mk.inj (Except.ok.inj hok)).2]
      simp
  | failure kind message => nomatch hok

/-- An event is passed on under its name. The state of the decoder has no part in it. -/
theorem passesOn (provider : String) (route : Route) (id : String) (created : Int)
    (hnative : route.isNative = true) :
    PassesOn (eventDecoder provider route id created) (isStop provider) passes [] where
  decoded {s e s' x} h := by
    rw [decode_eq, hnative] at h
    unfold decodeEvent at h
    dsimp only at h
    split at h
    · rename_i hblank
      have hstop : isStop provider e = false := by
        rw [isStop, isBlankEvent, hblank]
        split <;> rfl
      rw [← (Prod.mk.inj (Except.ok.inj h)).2, hstop, passes, isBlankEvent, hblank]
      exact ⟨rfl, rfl⟩
    · rename_i hblank
      obtain ⟨told, htold, h⟩ := exists_of_bind_ok h
      obtain ⟨⟨s₁, x₁⟩, hdecode, h⟩ := exists_of_bind_ok h
      have hfinished := finished_of_decode hdecode
      rw [← (Prod.mk.inj (Except.ok.inj h)).2, passes, isBlankEvent, if_neg hblank]
      refine ⟨?_, rfl⟩
      show x₁.finished = isStop provider e
      rw [Bool.eq_iff_iff, hfinished, isStop, htold]
      cases told with
      | messageStop => simp [isBlankEvent, hblank]
      | messageStart _ _ _ | messageDelta _ _ | blockStart _ | blockDelta _ | blockStop | ping
        | unknown | failure _ _ => simp
  closed _ := by
    show (if route.isNative then [] else [Frame.done]) = []
    rw [if_pos hnative]

theorem told_script {provider : String} {route : Route} {id : String} {created : Int}
    (hnative : route.isNative = true) {promptTokens : UInt32} {events : List Event}
    {rest : List Item} {outcome : Outcome} (hrest : ∀ e, Item.event e ∉ rest)
    (hok : (eventDecoder provider route id created).verdict promptTokens
      (eventDecoder provider route id created).start "" {} (events.map .event ++ rest)
      = some (.ok outcome)) :
    ((eventDecoder provider route id created).script route.isNative
      (eventDecoder provider route id created).start (events.map .event ++ rest)).map Frame.told
      = ((through (isStop provider) events).filter fun e => !isBlankEvent e).map
          fun e => ⟨e.name, Text.trim e.data⟩ := by
  have hpasses : ∀ e, (passes e).map Frame.told
      = if isBlankEvent e then [] else [⟨e.name, Text.trim e.data⟩] := by
    intro e
    rw [passes]
    cases isBlankEvent e <;> rfl
  obtain ⟨before, last, hthrough, -, -, hscript⟩ :=
    (passesOn provider route id created hnative).script route.isNative hrest hok
  rw [hscript, hthrough, List.append_nil, ← flatMap_passes fun e _ => hpasses e,
    List.flatMap_append, List.flatMap_singleton]

end Claude

/-! ## What the caller is to get

The two families side by side, and the answer from which it is told what the caller is to get. -/

namespace Adaptor

/-- The end signal of the family. -/
def stops (a : Adaptor) : Event → Bool :=
  match a.family with
  | .openai => OpenAi.isDone
  | .anthropic | .vertexClaude => Claude.isStop a.provider

/-- An event as it is passed on. Chat completions have no names for events. -/
def retold (a : Adaptor) (e : Event) : Event :=
  match a.family with
  | .openai => ⟨"message", Text.trim e.data⟩
  | .anthropic | .vertexClaude => ⟨e.name, Text.trim e.data⟩

/-- All events up to the end signal, that one included, less those that are blank. -/
def forwarded (a : Adaptor) (events : List Event) : List Event :=
  ((through a.stops events).filter fun e => !isBlankEvent e).map a.retold

theorem mem_trimChars {c : Char} {s : List Char} (h : c ∈ Text.trimChars s) : c ∈ s := by
  have hback : c ∈ (s.dropWhile Text.isBlank).reverse :=
    (List.dropWhile_sublist Text.isBlank).subset (List.mem_reverse.mp h)
  exact (List.dropWhile_sublist (l := s) Text.isBlank).subset (List.mem_reverse.mp hback)

/-- An event that could have been read of a text could be after it is retold. -/
theorem isClean_retold (a : Adaptor) {e : Event} (h : e.IsClean) : (a.retold e).IsClean := by
  have htrim : '\r' ∉ (Text.trim e.data).toList := by
    intro hr
    rw [Text.trim, String.toList_ofList] at hr
    exact h.data (mem_trimChars hr)
  have hmessage : IsLine "message".toList := ⟨by decide, by decide⟩
  rw [retold]
  cases a.family with
  | openai => exact ⟨show "message" ≠ "" by decide, hmessage, htrim⟩
  | anthropic | vertexClaude => exact ⟨h.named, h.name, htrim⟩

theorem isClean_of_mem_forwarded {a : Adaptor} {s : List UInt8} {e : Event}
    (h : e ∈ a.forwarded (Event.ofBytes s).1) : e.IsClean := by
  obtain ⟨sent, hsent, rfl⟩ := List.mem_map.mp h
  exact a.isClean_retold <| isClean_of_mem_ofBytes <|
    mem_of_mem_through (List.mem_of_mem_filter hsent)

/-- The items of an answer are its events and how it ends. -/
theorem items_eq (answer : Provider.Answer) :
    ∃ rest, answer.items = (Event.ofBytes answer.bytes).1.map .event ++ rest ∧
      ∀ e, Item.event e ∉ rest := by
  refine ⟨_, rfl, fun e he => ?_⟩
  cases hending : answer.ending with
  | complete =>
    rw [hending] at he
    dsimp only at he
    split at he <;> nomatch List.mem_singleton.mp he
  | broken detail =>
    rw [hending] at he
    nomatch List.mem_singleton.mp he
  | silent =>
    rw [hending] at he
    nomatch he

variable {a : Adaptor} {route : Route} {fresh : Fresh} {answer : Provider.Answer}
  {frames : List Frame} {outcome : Outcome}

/-- **The frames of a stream that is passed on are meant to tell just the events that the caller is
to get.** -/
theorem Streams.told_eq (hfamily : a.family = .openai ∨ route.isNative = true)
    (h : a.Streams route fresh answer frames (.ok outcome)) :
    frames.map Frame.told = a.forwarded (Event.ofBytes answer.bytes).1 := by
  obtain ⟨hscript, hverdict⟩ := EventDecoder.carries_iff.mp h
  obtain ⟨rest, hitems, hrest⟩ := items_eq answer
  rw [hitems] at hscript hverdict
  rw [← hscript]
  clear hscript
  have hnative : ∀ family, a.family = family → family ≠ .openai → route.isNative = true := by
    intro family hkind hne
    exact hfamily.resolve_left fun hopenai => hne (hkind.symm.trans hopenai)
  -- The decoder, the end signal and the way of telling are all given by the family.
  unfold forwarded stops retold eventDecoder at *
  cases hkind : a.family with
  | openai =>
    rw [hkind] at hverdict
    exact OpenAi.told_script hrest hverdict
  | anthropic =>
    rw [hkind] at hverdict
    exact Claude.told_script (hnative _ hkind (by decide)) hrest hverdict
  | vertexClaude =>
    rw [hkind] at hverdict
    exact Claude.told_script (hnative _ hkind (by decide)) hrest hverdict

/-- **The caller reads the events that it is to get, and no others, if and only if each of them has
its data on one line.**

An encoder that writes one line for a frame with one line of data is read back as it should be. For
the other direction the lines are counted: a line of data that is written bare is no data to a
reader, so that less data arrives than was sent. -/
theorem readBack_iff (a : Adaptor) (route : Route) (fresh : Fresh) (answer : Provider.Answer)
    (frames : List Frame) (outcome : Outcome) (hfamily : a.family = .openai ∨ route.isNative = true)
    (h : a.Streams route fresh answer frames (.ok outcome)) :
    let forwarded := a.forwarded (Event.ofBytes answer.bytes).1
    let wire := String.join (frames.map Frame.encode)
    frames.map Frame.told = forwarded ∧
      (Event.ofBytes wire.toUTF8.data.toList = (forwarded, true)
        ↔ ∀ e ∈ forwarded, '\n' ∉ e.data.toList) := by
  intro forwarded wire
  have htold : frames.map Frame.told = forwarded := h.told_eq hfamily
  have hclean : ∀ f ∈ frames, f.told.IsClean := by
    intro f hf
    apply isClean_of_mem_forwarded (a := a)
    rw [← h.told_eq hfamily]
    exact List.mem_map_of_mem hf
  refine ⟨htold, ?_⟩
  rw [← htold, ofBytes_encode_iff hclean, List.forall_mem_map]
  simp only [Frame.data_told]

/-- A chunk on one line is read back, and so is the end signal. -/
theorem chunk_is_read_back :
    let chunk := "\x7b\"choices\":[\x7b\"delta\":\x7b\"content\":\"hi\"\x7d\x7d]\x7d"
    let answer : Provider.Answer :=
      { body := ("data: \x7b\"choices\":[\x7b\"delta\":\x7b\"content\":\"hi\"\x7d\x7d]\x7d " ++
          "\r\n\r\ndata: \n\ndata: [DONE]\n\n").toUTF8 }
    let route : Route :=
      { channel := { id := "c", family := .openai, baseUrl := "", apiKey := "" }, model := "m",
        protocol := .completions, stream := true, promptTokens := 7 }
    let wire := String.join ([Frame.data chunk, .done].map Frame.encode)
    Streams { family := .openai, ready := true } route ⟨"id", 0, 0⟩ answer [.data chunk, .done]
        (.ok { text := "hi", usage := ⟨7, 1, 8⟩ }) ∧
      Event.ofBytes wire.toUTF8.data.toList
        = ([⟨"message", chunk⟩, ⟨"message", "[DONE]"⟩], true) := by
  intro chunk answer route wire
  let sent : Event :=
    ⟨"message", "\x7b\"choices\":[\x7b\"delta\":\x7b\"content\":\"hi\"\x7d\x7d]\x7d "⟩
  let blank : Event := ⟨"message", ""⟩
  let done : Event := ⟨"message", "[DONE]"⟩
  have hchars : Event.ofChars
      ("data: \x7b\"choices\":[\x7b\"delta\":\x7b\"content\":\"hi\"\x7d\x7d]\x7d " ++
        "\r\n\r\ndata: \n\ndata: [DONE]\n\n").toList = [sent, blank, done] := rfl
  have hevents : Event.ofBytes answer.bytes = ([sent, blank, done], true) := by
    rw [Provider.Answer.bytes, ofBytes_toUTF8, hchars]
  have hitems : answer.items = [.event sent, .event blank] ++ .event done :: [.finished] := by
    rw [Provider.Answer.items, hevents]
    rfl
  have htrim : Text.trim sent.data = chunk := by
    dsimp only [sent, chunk]
    rfl
  have hsent : OpenAi.decodeEvent sent = .ok { frames := [.data chunk], text := "hi" } := by
    rw [OpenAi.decodeEvent]
    dsimp only
    rw [htrim]
    rfl
  have hblank : OpenAi.decodeEvent blank = .ok {} := by
    dsimp only [blank]
    rfl
  have hdone : OpenAi.decodeEvent done = .ok { finished := true } := by
    dsimp only [done]
    rfl
  have husage : Chat.Usage.finalize {} 7 "hi" = ⟨7, 1, 8⟩ := by decide
  have hears : OpenAi.eventDecoder.Hears OpenAi.eventDecoder.start [.event sent, .event blank]
      [{ frames := [.data chunk], text := "hi" }, {}] OpenAi.eventDecoder.start :=
    .cons (OpenAi.decode_of_ok hsent) rfl (.cons (OpenAi.decode_of_ok hblank) rfl (.nil _))
  have hstreams : Streams { family := .openai, ready := true } route ⟨"id", 0, 0⟩ answer
      [.data chunk, .done] (.ok { text := "hi", usage := ⟨7, 1, 8⟩ }) := by
    refine Iff.mpr (streams_iff_of_end rfl hitems hears (OpenAi.decode_of_ok hdone) rfl) ⟨rfl, ?_⟩
    rw [← husage]
    rfl
  have hforwarded : forwarded { family := .openai, ready := true } [sent, blank, done]
      = [⟨"message", chunk⟩, ⟨"message", "[DONE]"⟩] := by
    dsimp only [sent, blank, done, chunk]
    decide +kernel
  refine ⟨hstreams, ?_⟩
  obtain ⟨-, hread⟩ := readBack_iff _ _ _ _ _ _ (Or.inl rfl) hstreams
  rw [hevents, hforwarded] at hread
  exact hread.mpr (by decide)

/-- A chunk spread over two lines is sent as it is, and only its first line is read back. -/
theorem spread_chunk_is_not_read_back :
    let chunk := "\x7b\n\"choices\":[]\x7d"
    let answer : Provider.Answer :=
      { body := "data: \x7b\ndata: \"choices\":[]\x7d\n\ndata: [DONE]\n\n".toUTF8 }
    let route : Route :=
      { channel := { id := "c", family := .openai, baseUrl := "", apiKey := "" }, model := "m",
        protocol := .completions, stream := true, promptTokens := 7 }
    let forwarded := forwarded { family := .openai, ready := true } (Event.ofBytes answer.bytes).1
    let wire := String.join ([Frame.data chunk, .done].map Frame.encode)
    Streams { family := .openai, ready := true } route ⟨"id", 0, 0⟩ answer [.data chunk, .done]
        (.ok { text := "", usage := ⟨7, 0, 7⟩ }) ∧
      forwarded = [⟨"message", chunk⟩, ⟨"message", "[DONE]"⟩] ∧
      Event.ofBytes wire.toUTF8.data.toList
        = ([⟨"message", "\x7b"⟩, ⟨"message", "[DONE]"⟩], true) ∧
      Event.ofBytes wire.toUTF8.data.toList ≠ (forwarded, true) := by
  intro chunk answer route forwarded wire
  let sent : Event := ⟨"message", "\x7b\n\"choices\":[]\x7d"⟩
  let done : Event := ⟨"message", "[DONE]"⟩
  have hchars : Event.ofChars
      "data: \x7b\ndata: \"choices\":[]\x7d\n\ndata: [DONE]\n\n".toList = [sent, done] := rfl
  have hevents : Event.ofBytes answer.bytes = ([sent, done], true) := by
    rw [Provider.Answer.bytes, ofBytes_toUTF8, hchars]
  have hitems : answer.items = [.event sent] ++ .event done :: [.finished] := by
    rw [Provider.Answer.items, hevents]
    rfl
  have hwire : Event.ofBytes wire.toUTF8.data.toList
      = ([⟨"message", "\x7b"⟩, ⟨"message", "[DONE]"⟩], true) := by
    rw [ofBytes_toUTF8]
    dsimp only [wire, chunk]
    decide +kernel
  have htrim : Text.trim sent.data = chunk := by
    dsimp only [sent, chunk]
    rfl
  have hsent : OpenAi.decodeEvent sent = .ok { frames := [.data chunk] } := by
    rw [OpenAi.decodeEvent]
    dsimp only
    rw [htrim]
    rfl
  have hdone : OpenAi.decodeEvent done = .ok { finished := true } := by
    dsimp only [done]
    rfl
  have husage : Chat.Usage.finalize {} 7 "" = ⟨7, 0, 7⟩ := by decide
  have hears : OpenAi.eventDecoder.Hears OpenAi.eventDecoder.start [.event sent]
      [{ frames := [.data chunk] }] OpenAi.eventDecoder.start :=
    .cons (OpenAi.decode_of_ok hsent) rfl (.nil _)
  have hstreams : Streams { family := .openai, ready := true } route ⟨"id", 0, 0⟩ answer
      [.data chunk, .done] (.ok { text := "", usage := ⟨7, 0, 7⟩ }) := by
    refine Iff.mpr (streams_iff_of_end rfl hitems hears (OpenAi.decode_of_ok hdone) rfl) ⟨rfl, ?_⟩
    rw [← husage]
    rfl
  have hforwarded : forwarded = [⟨"message", chunk⟩, ⟨"message", "[DONE]"⟩] := by
    dsimp only [forwarded]
    rw [hevents]
    dsimp only [sent, done, chunk]
    decide +kernel
  refine ⟨hstreams, hforwarded, hwire, ?_⟩
  rw [hwire, hforwarded]
  dsimp only [chunk]
  decide

end Adaptor

end ModelRelay
