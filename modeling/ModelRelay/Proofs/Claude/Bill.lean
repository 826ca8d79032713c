import ModelRelay.Proofs.Provider.Forwarding

/-!
# The bill and the caller's protocol

Callers who speak the Messages protocol get what the provider sends, all others a translation. Both
kinds are served by the same code, but what a call comes to is not read off what the caller gets:
**text, counts and failures are the same whichever protocol the caller speaks**
(`Adaptor.bill_ignores_protocol`). For those who speak it the frames are the events as they came.

Two decoders are compared event by event. What they keep between events and what they send may
differ; text, counts, end and failure of every event must not (`EventDecoder.BillsAlike`). From this
the verdict on a whole stream is the same by induction on the items, from whatever states the two
start, since no state has a part in what is billed. A decoder of Claude's events meets the condition
for any two routes, ids and times, because what `StreamHead.decode` adds to the bill depends on the
event alone.

Who gets what is the second half. `PassesOn.carries` says it of any decoder that sends events on
without a look at its state: events up to the end signal or up to the first failure, in their order.
For Claude's decoder `passedOn` names what is sent of each, its name and its trimmed data, and
nothing of a blank one.

Nothing is said here of a call that a channel of chat completions serves. There the counts are asked
for and the frames are filtered, whoever the caller is.
-/

set_option autoImplicit false

namespace ModelRelay

open Delivery Sse

namespace Outcome

/-- What is billed of a result: the text and the counts of an outcome. -/
def billOf (result : Except RelayError Outcome) : Except RelayError (String × Chat.Usage) :=
  result.map fun outcome => (outcome.text, outcome.usage)

end Outcome

/-! ## Decoders that bill alike

Some events are decoded to a failure and some are not, so the hypothesis is an equation between
results, and `BillsAlike.decoded` is the case split on it that all that follows goes by. -/

namespace Delivery.EventDecoder

/-- What an event adds to the bill, and whether it is the end signal. -/
def billed (x : Decoded) : String × Chat.PartialUsage × Bool :=
  (x.text, x.usage, x.finished)

/-- Two decoders bill every event alike, whatever they keep and send. -/
structure BillsAlike (d d' : EventDecoder) : Prop where
  provider : d.provider = d'.provider
  decode : ∀ s s' e,
    (d.decode s e).map (fun r => billed r.2) = (d'.decode s' e).map fun r => billed r.2

variable {d d' : EventDecoder}

/-- Both decoders fail with one fault, or both go on with one text, one count and one word on
whether the stream ends. -/
theorem BillsAlike.decoded (h : BillsAlike d d') (s : d.State) (s' : d'.State) (e : Event) :
    (∃ fault, d.decode s e = .error fault ∧ d'.decode s' e = .error fault) ∨
      ∃ s₁ x s₁' x', d.decode s e = .ok (s₁, x) ∧ d'.decode s' e = .ok (s₁', x') ∧
        x.text = x'.text ∧ x.usage = x'.usage ∧ x.finished = x'.finished := by
  have hdecode := h.decode s s' e
  cases hd : d.decode s e with
  | error fault =>
    cases hd' : d'.decode s' e with
    | error fault' =>
      rw [hd, hd'] at hdecode
      exact Or.inl ⟨fault, rfl, congrArg _ (Except.error.inj hdecode).symm⟩
    | ok r' =>
      rw [hd, hd'] at hdecode
      nomatch hdecode
  | ok r =>
    cases hd' : d'.decode s' e with
    | error fault' =>
      rw [hd, hd'] at hdecode
      nomatch hdecode
    | ok r' =>
      rw [hd, hd'] at hdecode
      obtain ⟨htext, hrest⟩ := Prod.mk.inj (Except.ok.inj hdecode)
      obtain ⟨husage, hfinished⟩ := Prod.mk.inj hrest
      exact Or.inr ⟨r.1, r.2, r'.1, r'.2, rfl, rfl, htext, husage, hfinished⟩

/-- **Streams that are billed alike, event by event, come to the same.** -/
theorem BillsAlike.verdict (h : BillsAlike d d') (promptTokens : UInt32) (s : d.State)
    (s' : d'.State) (text : String) (usage : Chat.PartialUsage) (items : List Item) :
    d.verdict promptTokens s text usage items = d'.verdict promptTokens s' text usage items := by
  -- The states are generalised with the rest: after an event the two are in states that have
  -- nothing to do with each other.
  induction items generalizing s s' text usage with
  | nil => rfl
  | cons item rest ih =>
    cases item with
    | broken detail => rw [EventDecoder.verdict, EventDecoder.verdict, h.provider]
    | finished => rw [EventDecoder.verdict, EventDecoder.verdict, h.provider]
    | event e =>
      rw [EventDecoder.verdict, EventDecoder.verdict]
      rcases h.decoded s s' e with ⟨fault, hd, hd'⟩ |
        ⟨s₁, x, s₁', x', hd, hd', htext, husage, hfinished⟩
      · rw [hd, hd']
      · rw [hd, hd']
        dsimp only
        rw [htext, husage, hfinished, ih s₁ s₁']

/-- Where one fails the other fails. -/
theorem BillsAlike.failure? (h : BillsAlike d d') (s : d.State) (s' : d'.State) (item : Item) :
    d.failure? s item = d'.failure? s' item := by
  cases item with
  | broken detail => rw [EventDecoder.failure?, EventDecoder.failure?, h.provider]
  | finished => rw [EventDecoder.failure?, EventDecoder.failure?, h.provider]
  | event e =>
    rw [EventDecoder.failure?, EventDecoder.failure?]
    rcases h.decoded s s' e with ⟨fault, hd, hd'⟩ | ⟨s₁, x, s₁', x', hd, hd', -⟩
    · rw [hd, hd']
    · rw [hd, hd']

/-- A stream that the one carries the other carries too, and to the same result. -/
theorem BillsAlike.carries (h : BillsAlike d d') {route route' : Route}
    (hprompt : route.promptTokens = route'.promptTokens) {items : List Item} {frames : List Frame}
    {result : Except RelayError Outcome} (hcarries : d.Carries route items frames result) :
    (∃ frames', d'.Carries route' items frames' result) ∧
      ∀ frames' result', d'.Carries route' items frames' result' → result' = result := by
  obtain ⟨-, hverdict⟩ := carries_iff.mp hcarries
  rw [h.verdict _ _ d'.start, hprompt] at hverdict
  refine ⟨⟨_, carries_iff.mpr ⟨rfl, hverdict⟩⟩, fun frames' result' hcarries' => ?_⟩
  obtain ⟨-, hverdict'⟩ := carries_iff.mp hcarries'
  exact Option.some.inj (hverdict'.symm.trans hverdict)

end Delivery.EventDecoder

/-! ## Decoders that pass events on

`PassesOn` says of a decoder what it sends of an event and which events end it. What it sends of a
stream follows, by induction on what is heard. -/

namespace PassesOn

variable {d : EventDecoder} {stops : Event → Bool} {passes : Event → List Frame}
  {closing : List Frame}

/-- What is heard is passed on: the items are events, the frames are those of each, and no event
among them stops the stream or fails. -/
theorem of_hears (h : PassesOn d stops passes closing) {s s' : d.State} {before : List Item}
    {told : List Decoded} (hears : d.Hears s before told s') :
    ∃ events : List Event, before = events.map Item.event ∧
      told.flatMap (·.frames) = events.flatMap passes ∧
      ∀ e ∈ events, stops e = false ∧ ∃ s, d.failure? s (.event e) = none := by
  induction hears with
  | nil s => exact ⟨[], rfl, rfl, List.forall_mem_nil _⟩
  | @cons s s' s'' e x rest told hdec hfin hrest ih =>
    obtain ⟨events, rfl, hframes, hall⟩ := ih
    obtain ⟨hstops, hpasses⟩ := h.decoded hdec
    refine ⟨e :: events, rfl, ?_, List.forall_mem_cons.mpr ⟨⟨?_, s, ?_⟩, hall⟩⟩
    · rw [List.flatMap_cons, List.flatMap_cons, hframes, hpasses]
    · rw [← hstops, hfin]
    · rw [EventDecoder.failure?, hdec]

/-- **A stream is passed on up to the end signal, or up to the first failure, which is told behind
it.** -/
theorem carries (h : PassesOn d stops passes closing) {route : Route} {items : List Item}
    {frames : List Frame} {result : Except RelayError Outcome}
    (hcarries : d.Carries route items frames result) :
    ∃ before item after, items = before.map Item.event ++ item :: after ∧
      (∀ e ∈ before, stops e = false ∧ ∃ s, d.failure? s (.event e) = none) ∧
      ((∃ last outcome, item = .event last ∧ stops last = true ∧ result = .ok outcome ∧
          frames = (before ++ [last]).flatMap passes ++ closing) ∨
        ∃ fault s, d.failure? s item = some fault ∧ result = .error fault ∧
          frames = before.flatMap passes ++ [Frame.ofError route.isNative fault]) := by
  obtain ⟨rfl, hverdict⟩ := EventDecoder.carries_iff.mp hcarries
  obtain ⟨_, item, after, told, s', rfl, hears, hend⟩ :=
    EventDecoder.exists_end_of_verdict hverdict route.isNative
  obtain ⟨before, rfl, hframes, hall⟩ := h.of_hears hears
  refine ⟨before, item, after, rfl, hall, ?_⟩
  rw [hframes] at hend
  rcases hend with ⟨last, s₁, x, rfl, hdec, hfin, hscript, hresult⟩ |
    ⟨fault, hfault, hscript, hresult⟩
  · obtain ⟨hstops, hpasses⟩ := h.decoded hdec
    refine Or.inl ⟨last, _, rfl, hstops ▸ hfin, hresult, ?_⟩
    rw [hscript, h.closed, hpasses, List.flatMap_append, List.flatMap_singleton, List.append_assoc]
  · exact Or.inr ⟨fault, s', hfault, hresult, hscript⟩

end PassesOn

/-! ## The Messages protocol

The translation and the forwarding differ in one conditional of `decodeEvent`, on the frames. The
text, the counts and the end are taken before it. -/

namespace Claude

variable {provider : String}

/-- What an event tells is billed alike whatever the chunks have in common. -/
theorem billed_decode (provider : String) (h h' : StreamHead) (told : StreamEvent) :
    (h.decode provider told).map (fun r => EventDecoder.billed r.2)
      = (h'.decode provider told).map fun r => EventDecoder.billed r.2 := by
  cases told with
  | blockStart text =>
    cases htext : text.filter (!·.isEmpty) <;>
      simp only [StreamHead.decode, htext, Except.map, EventDecoder.billed]
  | blockDelta text =>
    cases text <;> simp only [StreamHead.decode, Except.map, EventDecoder.billed]
  | messageStart _ _ _ | messageDelta _ _ | blockStop | messageStop | ping | unknown
    | failure _ _ => simp only [StreamHead.decode, Except.map, EventDecoder.billed]

/-- An event is billed alike whether it is translated or passed on. Both sides are decoded before
the frames are chosen, so the cases are those of `StreamHead.decode`. -/
theorem billed_decodeEvent (native native' : Bool) (h h' : StreamHead) (e : Event) :
    (decodeEvent provider native h e).map (fun r => EventDecoder.billed r.2)
      = (decodeEvent provider native' h' e).map fun r => EventDecoder.billed r.2 := by
  unfold decodeEvent
  dsimp only
  split
  · rfl
  · cases readEvent provider (Text.trim e.data) with
    | error fault => rfl
    | ok told =>
      -- The same event is read on both sides, and its decoding differs in the head only.
      have hbilled := billed_decode provider h h' told
      show (h.decode provider told >>= _).map _ = (h'.decode provider told >>= _).map _
      cases hd : h.decode provider told with
      | error fault =>
        cases hd' : h'.decode provider told with
        | error fault' =>
          rw [hd, hd'] at hbilled
          rw [Except.error.inj hbilled]
          rfl
        | ok r' =>
          rw [hd, hd'] at hbilled
          nomatch hbilled
      | ok r =>
        cases hd' : h'.decode provider told with
        | error fault' =>
          rw [hd, hd'] at hbilled
          nomatch hbilled
        | ok r' =>
          rw [hd, hd'] at hbilled
          have hsame := Except.ok.inj hbilled
          cases native <;> cases native' <;> exact congrArg Except.ok hsame

/-- Any two of Claude's decoders for one provider bill alike, whatever their routes, ids and
times. -/
theorem billsAlike (route route' : Route) (id id' : String) (created created' : Int) :
    EventDecoder.BillsAlike (eventDecoder provider route id created)
      (eventDecoder provider route' id' created') where
  provider := rfl
  decode s s' e := by
    rw [decode_eq, decode_eq]
    exact billed_decodeEvent _ _ _ _ e

/-- A whole message is billed alike for everybody. -/
theorem billOf_outcomeOf (route : Route) (p p' : Protocol) (created created' : Int) (body : Json) :
    Outcome.billOf (outcomeOf provider { route with protocol := p } created body)
      = Outcome.billOf (outcomeOf provider { route with protocol := p' } created' body) := by
  unfold outcomeOf
  cases Decoder.ofJson Answer.decoder body with
  | error m => rfl
  | ok m => rfl

/-- What callers who speak the protocol get of events: all that are not blank, each as it came. -/
def passedOn (events : List Event) : List Frame :=
  (events.filter fun e => !isBlankEvent e).map fun e => .event e.name (Text.trim e.data)

theorem passedOn_eq (events : List Event) : passedOn events = events.flatMap passes := by
  induction events with
  | nil => rfl
  | cons e events ih =>
    rw [List.flatMap_cons, ← ih, passedOn, passedOn, List.filter_cons, passes]
    cases isBlankEvent e <;> rfl

theorem done_notMem_passedOn (events : List Event) : Frame.done ∉ passedOn events := by
  intro hdone
  obtain ⟨e, -, heq⟩ := List.mem_map.mp hdone
  nomatch heq

/-- **Callers who speak the protocol get every event up to the end of the message**, or up to the
first that fails, which is told them in one event behind the others. -/
theorem carries_native {route : Route} (id : String) (created : Int)
    (hnative : route.isNative = true) {items : List Item} {frames : List Frame}
    {result : Except RelayError Outcome}
    (hcarries : (eventDecoder provider route id created).Carries route items frames result) :
    let decoder := eventDecoder provider route id created
    .done ∉ frames ∧ ∃ (before : List Event) (item : Item) (after : List Item),
      items = before.map .event ++ item :: after ∧
      (∀ e ∈ before, isStop provider e = false ∧ decoder.failure? decoder.start (.event e) = none) ∧
      ((∃ last outcome, item = .event last ∧ isStop provider last = true ∧ result = .ok outcome ∧
          frames = passedOn (before ++ [last])) ∨
        ∃ fault, decoder.failure? decoder.start item = some fault ∧ result = .error fault ∧
          frames = passedOn before ++ [.event "error" (fault.envelope true).print]) := by
  intro decoder
  -- `PassesOn.carries` names a failure in the state in which it comes. Which state that is makes no
  -- difference to a decoder that bills like itself, so all failures are told of the first one.
  have halike : decoder.BillsAlike decoder := billsAlike route route id id created created
  obtain ⟨before, item, after, hitems, hbefore, hends⟩ :=
    (passesOn provider route id created hnative).carries hcarries
  have hheard : ∀ e ∈ before, isStop provider e = false ∧
      decoder.failure? decoder.start (.event e) = none := by
    intro e he
    obtain ⟨hstop, s, hnone⟩ := hbefore e he
    exact ⟨hstop, (halike.failure? decoder.start s (.event e)).trans hnone⟩
  rcases hends with ⟨last, outcome, hlast, hstop, hresult, hframes⟩ |
    ⟨fault, s, hfault, hresult, hframes⟩
  · rw [List.append_nil, ← passedOn_eq] at hframes
    refine ⟨?_, before, item, after, hitems, hheard,
      Or.inl ⟨last, outcome, hlast, hstop, hresult, hframes⟩⟩
    rw [hframes]
    exact done_notMem_passedOn _
  · rw [← passedOn_eq, hnative] at hframes
    refine ⟨?_, before, item, after, hitems, hheard,
      Or.inr ⟨fault, (halike.failure? decoder.start s item).trans hfault, hresult, hframes⟩⟩
    rw [hframes]
    intro hdone
    rcases List.mem_append.mp hdone with hdone | hdone
    · exact done_notMem_passedOn before hdone
    · nomatch List.mem_singleton.mp hdone

theorem body_of_outcomeOf {route : Route} {created : Int} {body : Json} {outcome : Outcome}
    (hnative : route.isNative = true) (h : outcomeOf provider route created body = .ok outcome) :
    outcome.body = some body := by
  obtain ⟨m, -, h⟩ := exists_of_bind_ok h
  rw [← Except.ok.inj h, hnative]
  rfl

end Claude

namespace Adaptor

/-- **What is billed does not depend on the protocol that the caller speaks**, and a caller who
speaks the provider's gets the answer as it came.

The decoders for two callers differ in the frames that they make of an event, and the bill is taken
from the event (`Claude.billsAlike`). Where frames are passed on, they are those of each event. -/
theorem bill_ignores_protocol (a : Adaptor) (hfamily : a.family ≠ .openai) (route : Route)
    (p p' : Protocol) (fresh fresh' : Fresh) :
    let told : Route := { route with protocol := p }
    let told' : Route := { route with protocol := p' }
    let decoder := a.eventDecoder told fresh
    let decoder' := a.eventDecoder told' fresh'
    (∀ body : Json, Outcome.billOf (a.outcomeOf told fresh body)
      = Outcome.billOf (a.outcomeOf told' fresh' body)) ∧
    (∀ (items : List Item) (frames : List Frame) (result : Except RelayError Outcome),
      decoder.Carries told items frames result →
        (∃ frames', decoder'.Carries told' items frames' result) ∧
        ∀ frames' result', decoder'.Carries told' items frames' result' → result' = result) ∧
    (told.isNative = true →
      (∀ body outcome, a.outcomeOf told fresh body = .ok outcome → outcome.body = some body) ∧
      ∀ (items : List Item) (frames : List Frame) (result : Except RelayError Outcome),
        decoder.Carries told items frames result → .done ∉ frames ∧
        ∃ (before : List Event) (item : Item) (after : List Item),
          items = before.map .event ++ item :: after ∧
          (∀ e ∈ before, Claude.isStop a.provider e = false ∧
            decoder.failure? decoder.start (.event e) = none) ∧
          ((∃ last outcome, item = .event last ∧ Claude.isStop a.provider last = true ∧
              result = .ok outcome ∧ frames = Claude.passedOn (before ++ [last])) ∨
            ∃ fault, decoder.failure? decoder.start item = some fault ∧ result = .error fault ∧
              frames = Claude.passedOn before ++
                [.event "error" (fault.envelope true).print])) := by
  intro told told' decoder decoder'
  have hdecoder : decoder = Claude.eventDecoder a.provider told fresh.id fresh.now :=
    eventDecoder_of_ne hfamily told fresh
  have hdecoder' : decoder' = Claude.eventDecoder a.provider told' fresh'.id fresh'.now :=
    eventDecoder_of_ne hfamily told' fresh'
  rw [hdecoder, hdecoder']
  -- One case for each of the three parts, and the last of them is blocking and streamed again.
  refine ⟨fun body => ?_, fun items frames result hcarries => ?_, fun hnative =>
    ⟨fun body outcome houtcome => ?_, fun items frames result hcarries => ?_⟩⟩
  · rw [outcomeOf_of_ne hfamily, outcomeOf_of_ne hfamily]
    exact Claude.billOf_outcomeOf route p p' fresh.now fresh'.now body
  · have hprompt : told.promptTokens = told'.promptTokens := rfl
    exact (Claude.billsAlike told told' fresh.id fresh'.id fresh.now fresh'.now).carries hprompt
      hcarries
  · rw [outcomeOf_of_ne hfamily] at houtcome
    exact Claude.body_of_outcomeOf hnative houtcome
  · exact Claude.carries_native fresh.id fresh.now hnative hcarries

/-- A piece of text and the end: one caller gets both events, another gets the piece as a chunk, and
the bill is one. -/
theorem greeting_is_billed_once :
    let delta := "\x7b\"type\":\"content_block_delta\",\"delta\":\x7b\"text\":\"Hi\"\x7d\x7d"
    let stop := "\x7b\"type\":\"message_stop\"\x7d"
    let items : List Item := [.event ⟨"content_block_delta", delta ++ " "⟩, .event ⟨"ping", " "⟩,
      .event ⟨"message_stop", stop⟩]
    let a : Adaptor := { family := .anthropic }
    let route (p : Protocol) : Route :=
      { channel := { id := "c", family := .anthropic, baseUrl := "", apiKey := "" }, model := "m",
        protocol := p, stream := true, promptTokens := 7 }
    let fresh : Fresh := ⟨"id", 0, 0⟩
    let result : Except RelayError Outcome := .ok { text := "Hi", usage := ⟨7, 1, 8⟩ }
    (a.eventDecoder (route .messages) fresh).Carries (route .messages) items
        [.event "content_block_delta" delta, .event "message_stop" stop] result ∧
      ∃ frames,
        (a.eventDecoder (route .completions) fresh).Carries (route .completions) items frames
          result := by
  intro delta stop items a route fresh result
  let decoder := Claude.eventDecoder "anthropic" (route .messages) "id" 0
  let head : Claude.StreamHead := ⟨"chatcmpl-id", "m", 0⟩
  have hdecode : ∀ e, decoder.decode head e = Claude.decodeEvent "anthropic" true head e :=
    Claude.decode_eq "anthropic" (route .messages) "id" 0 head
  -- The three events are decoded one by one; what a stream of them comes to follows.
  have hdelta : decoder.decode head ⟨"content_block_delta", delta ++ " "⟩
      = .ok (head, { frames := [.event "content_block_delta" delta], text := "Hi" }) := by
    rw [hdecode]
    apply ok_of_toOption
    decide +kernel
  have hping : decoder.decode head ⟨"ping", " "⟩ = .ok (head, {}) := by
    rw [hdecode]
    apply ok_of_toOption
    decide +kernel
  have hstop : decoder.decode head ⟨"message_stop", stop⟩
      = .ok (head, { frames := [.event "message_stop" stop], finished := true }) := by
    rw [hdecode]
    apply ok_of_toOption
    decide +kernel
  have husage : Chat.Usage.finalize {} 7 "Hi" = ⟨7, 1, 8⟩ := by decide
  have hears : decoder.Hears decoder.start
      [.event ⟨"content_block_delta", delta ++ " "⟩, .event ⟨"ping", " "⟩]
      [{ frames := [.event "content_block_delta" delta], text := "Hi" }, {}] head :=
    .cons hdelta rfl (.cons hping rfl (.nil _))
  have hnative : decoder.Carries (route .messages) items
      [.event "content_block_delta" delta, .event "message_stop" stop] result := by
    refine (EventDecoder.carries_iff_of_end hears hstop rfl).mpr ⟨rfl, ?_⟩
    show Except.ok (Outcome.mk "Hi" ⟨7, 1, 8⟩ none) = _
    rw [← husage]
    rfl
  have hsame := (bill_ignores_protocol a (by decide) (route .messages) .messages .completions fresh
    fresh).2.1 items _ _ hnative
  exact ⟨hnative, hsame.1⟩

end Adaptor

end ModelRelay
