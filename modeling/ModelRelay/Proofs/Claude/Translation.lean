import ModelRelay.Proofs.Chat.Chunks
import ModelRelay.Proofs.Claude.Agreement
import ModelRelay.Proofs.Delivery.Gathering

/-!
# Translated streams

Callers of chat completions get chunks for the events of a message. Nothing says that a provider
sends these in an order that makes sense, or none of them twice. **Whatever it sends, the caller
gets chunks of one form and behind them one last frame** (`chunks_of_stream`). The text in the
chunks is the text that is billed, and a chunk that gives a reason for the end gives one that the
provider gave.

The beginning of a message changes the id and the model of the chunks that follow, so chunks are
those of the events in their order, under the head that each event leaves (`StreamHead.chunksOf`).
What holds of every chunk wherever it stands is `IsPieceOf`; what depends on the place is the head
alone, and from the last beginning on it stays.

The proof has three steps. `decode_cases` says what the decoder makes of one event: nothing of a
blank one, what it tells of one that is understood, and a failure of any other. `chunks_of_hears`
carries this along the events that are heard, by induction, and relates frames and text to the same
chunks, so the two cannot come apart. The item that ends the stream is treated apart, because it
adds no chunk whichever way it ends.

Nothing is assumed of the events. That a message told in a sensible order comes out as the message
is another matter, and `Claude.Agreement` is about it.
-/

set_option autoImplicit false

namespace ModelRelay.Claude

open Delivery Sse

/-! ## The chunks of events

`told?` reads an event without any decoder's state. Whether the stream goes on behind it and whether
it breaks there are said in terms of `Conveys`, so a statement about a stream can be read without
looking at the decoder. -/

/-- What an event tells, unless it is blank or is not understood. -/
def told? (e : Event) : Option StreamEvent :=
  if (Text.trim e.data).isEmpty then none
  else (Decoder.ofText StreamEvent.decoder (Text.trim e.data)).toOption

/-- What an event tells is understood by whoever asks. -/
theorem conveys_of_told? {e : Event} {told : StreamEvent} (h : told? e = some told) :
    Conveys e told := by
  rw [told?] at h
  split at h
  · nomatch h
  · rename_i hblank
    refine ⟨Bool.eq_false_iff.mpr hblank, fun provider => ?_⟩
    rw [readEvent, ok_of_toOption h]
    rfl

/-- A stream goes on behind the event: it is blank, or it tells neither the end nor a failure. -/
def GoesOn (e : Event) : Prop :=
  (Text.trim e.data).isEmpty = true ∨
    ∃ told, Conveys e told ∧ told ≠ .messageStop ∧ ∀ kind message, told ≠ .failure kind message

/-- What keeps a stream from its end: a failure that is told, data that nobody understands, or a
body that breaks off or is over too soon. -/
inductive Breaks : Item → Prop where
  | told {e : Event} {kind message : Option String} : Conveys e (.failure kind message) →
      Breaks (.event e)
  | garbled {e : Event} : (Text.trim e.data).isEmpty = false → (∀ told, ¬ Conveys e told) →
      Breaks (.event e)
  | broken (detail : String) : Breaks (.broken detail)
  | finished : Breaks .finished

/-- The beginning of a message, which alone changes the head. -/
def StreamEvent.isStart : StreamEvent → Bool
  | .messageStart _ _ _ => true
  | _ => false

namespace StreamHead

/-- The head once it is known what an event tells. -/
def after (h : StreamHead) : StreamEvent → StreamHead
  | .messageStart id model _ => h.opened id model
  | _ => h

/-- The chunks that events become, one after the other. -/
def chunksOf (h : StreamHead) : List StreamEvent → List Chat.Chunk
  | [] => []
  | told :: rest => (h.after told).chunks told.pieces ++ (h.after told).chunksOf rest

variable {h : StreamHead} {told : StreamEvent} {tolds : List StreamEvent} {c : Chat.Chunk}

theorem chunksOf_cons (h : StreamHead) (told : StreamEvent) (rest : List StreamEvent) :
    h.chunksOf (told :: rest)
      = (h.after told).chunks told.pieces ++ (h.after told).chunksOf rest := rfl

theorem created_after (h : StreamHead) (told : StreamEvent) :
    (h.after told).created = h.created := by
  cases told <;> rfl

theorem after_of_not_isStart (hstart : told.isStart = false) : h.after told = h := by
  cases told with
  | messageStart _ _ _ => nomatch hstart
  | blockStart _ | blockDelta _ | blockStop | messageDelta _ _ | messageStop | ping | failure _ _
    | unknown => rfl

theorem chunksOf_append (h : StreamHead) (pre post : List StreamEvent) :
    h.chunksOf (pre ++ post) = h.chunksOf pre ++ (pre.foldl after h).chunksOf post := by
  induction pre generalizing h with
  | nil => rfl
  | cons told pre ih =>
    rw [List.cons_append, chunksOf_cons, ih, chunksOf_cons, List.foldl_cons, List.append_assoc]

/-- Every chunk says a piece of some event, at the time that all chunks have. -/
theorem exists_piece_of_mem_chunksOf (hc : c ∈ h.chunksOf tolds) :
    ∃ told ∈ tolds, ∃ p ∈ told.pieces, ∃ id model,
      c = .ofDelta id model h.created p.1 p.2 := by
  induction tolds generalizing h with
  | nil => nomatch hc
  | cons told rest ih =>
    rw [chunksOf_cons, List.mem_append] at hc
    rcases hc with hc | hc
    · obtain ⟨p, hp, rfl⟩ := List.mem_map.mp hc
      refine ⟨told, List.mem_cons_self, p, hp, (h.after told).id, (h.after told).model, ?_⟩
      rw [created_after]
    · obtain ⟨other, hother, p, hp, id, model, rfl⟩ := ih hc
      refine ⟨other, List.mem_cons_of_mem _ hother, p, hp, id, model, ?_⟩
      rw [created_after]

/-- Without a beginning among the events the head stays. -/
theorem head_of_mem_chunksOf (hstart : ∀ told ∈ tolds, told.isStart = false)
    (hc : c ∈ h.chunksOf tolds) : c.id = h.id ∧ c.model = h.model := by
  induction tolds with
  | nil => nomatch hc
  | cons told rest ih =>
    rw [List.forall_mem_cons] at hstart
    rw [chunksOf_cons, after_of_not_isStart hstart.1, List.mem_append] at hc
    rcases hc with hc | hc
    · obtain ⟨p, -, rfl⟩ := List.mem_map.mp hc
      exact ⟨rfl, rfl⟩
    · exact ih hstart.2 hc

/-- From the last beginning on, the chunks have the id and the model that the head has then. -/
theorem head_of_mem_chunksOf_cons {start : StreamEvent} {post : List StreamEvent}
    (hpost : ∀ told ∈ post, told.isStart = false) (hc : c ∈ h.chunksOf (start :: post)) :
    c.id = (h.after start).id ∧ c.model = (h.after start).model := by
  rw [chunksOf_cons, List.mem_append] at hc
  rcases hc with hc | hc
  · obtain ⟨p, -, rfl⟩ := List.mem_map.mp hc
    exact ⟨rfl, rfl⟩
  · exact head_of_mem_chunksOf hpost hc

/-- Where the events behind a beginning hold no other, the chunks from there on are of one id and
one model. There may be none at all. -/
theorem exists_head_of_split {pre post : List StreamEvent} {start : StreamEvent}
    (hsplit : tolds = pre ++ start :: post) (hpost : ∀ told ∈ post, told.isStart = false) :
    ∃ late id model, h.chunksOf tolds = h.chunksOf pre ++ late ∧
      ∀ c ∈ late, c.id = id ∧ c.model = model := by
  rw [hsplit, chunksOf_append]
  exact ⟨_, _, _, rfl, fun c hc => head_of_mem_chunksOf_cons hpost hc⟩

end StreamHead

/-- A reason for the end is one that was reported. -/
theorem StreamEvent.reason_of_mem_pieces {told : StreamEvent} {content : Option String}
    {finish : Chat.FinishReason} (h : (content, some finish) ∈ told.pieces) :
    ∃ reason usage, told = .messageDelta (some reason) usage ∧
      Chat.FinishReason.ofStopReason? reason = some finish := by
  cases told with
  | messageDelta stopReason usage =>
    obtain ⟨f, hf, heq⟩ := List.mem_map.mp h
    obtain ⟨rfl⟩ := Option.some.inj (Prod.mk.inj heq).2
    obtain ⟨reason, rfl, hreason⟩ := Option.bind_eq_some_iff.mp (Option.mem_toList.mp hf)
    exact ⟨reason, usage, rfl, hreason⟩
  | messageStart _ _ _ => simp [pieces] at h
  | blockStart text => simp [pieces] at h
  | blockDelta text => simp [pieces] at h
  | blockStop | messageStop | ping | failure _ _ | unknown => cases h

/-! ## What the decoder makes of events

The decoder's state is a head. An event is decoded to the head behind it and to chunks under that
head, so `StreamHead.chunksOf` follows the decoder step by step. -/

/-- One event that is understood: the head it leaves, its chunks, and their text. -/
theorem StreamHead.decode_told {h h' : StreamHead} {provider : String} {told : StreamEvent}
    {x : Decoded} (hdec : h.decode provider told = .ok (h', x)) :
    h' = h.after told ∧ x.frames = (h'.chunks told.pieces).map Frame.ofChunk ∧
      x.text = said told.pieces ∧ (x.finished = true → told = .messageStop) := by
  -- Five kinds of event and what is unknown are decoded alike, by the lemma for the inside of a
  -- message.
  have hinner (hinner : told.isInner = true) : h' = h ∧ x.finished = false ∧
      x.frames = (h'.chunks told.pieces).map Frame.ofChunk ∧ x.text = said told.pieces := by
    obtain ⟨x', hdec', hfin, hframes, htext, -⟩ := h.decode_inner provider hinner
    obtain ⟨rfl, rfl⟩ := Prod.mk.inj (Except.ok.inj (hdec.symm.trans hdec'))
    exact ⟨rfl, hfin, hframes, htext⟩
  cases told with
  | messageStart id model usage =>
    obtain ⟨rfl, rfl⟩ := Prod.mk.inj (Except.ok.inj hdec)
    exact ⟨rfl, rfl, rfl, nofun⟩
  | messageStop =>
    obtain ⟨rfl, rfl⟩ := Prod.mk.inj (Except.ok.inj hdec)
    exact ⟨rfl, rfl, rfl, fun _ => rfl⟩
  | failure kind message => nomatch hdec
  | blockStart _ | blockDelta _ | blockStop | messageDelta _ _ | ping | unknown =>
    obtain ⟨hhead, hfin, hframes, htext⟩ := hinner rfl
    exact ⟨hhead, hframes, htext, fun h => absurd (hfin.symm.trans h) (by decide)⟩

/-- Only an event that tells a failure is one. -/
theorem StreamHead.failure_of_decode {h : StreamHead} {provider : String} {told : StreamEvent}
    {fault : RelayError} (hdec : h.decode provider told = .error fault) :
    ∃ kind message, told = .failure kind message := by
  cases hinner : told.isInner with
  | true =>
    obtain ⟨x, hok, -⟩ := h.decode_inner provider hinner
    nomatch hdec.symm.trans hok
  | false =>
    cases told with
    | failure kind message => exact ⟨kind, message, rfl⟩
    | messageStart _ _ _ | messageStop => nomatch hdec
    | blockStart _ | blockDelta _ | blockStop | messageDelta _ _ | ping | unknown => nomatch hinner

variable {provider : String} {route : Route} {id : String} {created : Int}

/-- What the decoder makes of an event: nothing if it is blank, what it tells if it is understood,
and a failure of anything else. -/
theorem decode_cases (provider id : String) (created : Int) (hnative : route.isNative = false)
    (h : StreamHead) (e : Event) :
    let decoded := (eventDecoder provider route id created).decode h e
    ((Text.trim e.data).isEmpty = true ∧ told? e = none ∧ decoded = .ok (h, {})) ∨
    (∃ told, Conveys e told ∧ told? e = some told ∧ decoded = h.decode provider told) ∨
      ((Text.trim e.data).isEmpty = false ∧ (∀ told, ¬ Conveys e told) ∧
        ∃ fault, decoded = .error fault) := by
  intro decoded
  have hdecoded : decoded = decodeEvent provider false h e := by
    rw [← hnative]
    exact decode_eq provider route id created h e
  rw [hdecoded, decodeEvent, told?]
  cases hblank : (Text.trim e.data).isEmpty with
  | true => exact Or.inl ⟨rfl, rfl, rfl⟩
  | false =>
    refine Or.inr ?_
    -- Reading the data is all that can fail here; what an event tells is decoded outside.
    cases htext : Decoder.ofText StreamEvent.decoder (Text.trim e.data) with
    | error m =>
      refine Or.inr ⟨rfl, fun told hconveys => ?_, ?_⟩
      · have hread := hconveys.read provider
        rw [readEvent, htext] at hread
        cases hread
      · rw [readEvent, htext]
        exact ⟨_, rfl⟩
    | ok told =>
      have hread : ∀ provider, readEvent provider (Text.trim e.data) = .ok told := by
        intro provider
        rw [readEvent, htext]
        rfl
      refine Or.inl ⟨told, ⟨hblank, hread⟩, rfl, ?_⟩
      rw [hread]
      show (h.decode provider told >>= pure) = _
      exact bind_pure _

theorem decode_ok (hnative : route.isNative = false) {h h' : StreamHead} {e : Event} {x : Decoded}
    (hdec : (eventDecoder provider route id created).decode h e = .ok (h', x)) :
    ((Text.trim e.data).isEmpty = true ∧ told? e = none ∧ h' = h ∧ x = {}) ∨
      ∃ told, Conveys e told ∧ told? e = some told ∧ h.decode provider told = .ok (h', x) := by
  rcases decode_cases provider id created hnative h e with
    ⟨hblank, hnone, hok⟩ | ⟨told, hconveys, hsome, htold⟩ | ⟨-, -, fault, hfault⟩
  · obtain ⟨rfl, rfl⟩ := Prod.mk.inj (Except.ok.inj (hdec.symm.trans hok))
    exact Or.inl ⟨hblank, hnone, rfl, rfl⟩
  · exact Or.inr ⟨told, hconveys, hsome, htold.symm.trans hdec⟩
  · nomatch hdec.symm.trans hfault

/-- One event: what is sent of it and what is counted are the same chunks. -/
theorem chunks_of_decode (hnative : route.isNative = false) {h h' : StreamHead} {e : Event}
    {x : Decoded} (hdec : (eventDecoder provider route id created).decode h e = .ok (h', x)) :
    ∃ chunks : List Chat.Chunk, x.frames = chunks.map Frame.ofChunk ∧
      x.text = String.join (chunks.map Chat.Chunk.text) ∧
      ∀ events : List Event, h.chunksOf ((e :: events).filterMap told?)
        = chunks ++ h'.chunksOf (events.filterMap told?) := by
  rcases decode_ok hnative hdec with ⟨-, hnone, rfl, rfl⟩ | ⟨told, -, hsome, hdecode⟩
  · refine ⟨[], rfl, rfl, fun events => ?_⟩
    rw [List.filterMap_cons_none hnone, List.nil_append]
  · obtain ⟨rfl, hframes, htext, -⟩ := StreamHead.decode_told hdecode
    refine ⟨_, hframes, htext.trans (text_chunks _ _).symm, fun events => ?_⟩
    rw [List.filterMap_cons_some hsome, StreamHead.chunksOf_cons]

/-- A stream that goes on behind an event was told neither its end nor a failure. -/
theorem goesOn_of_decode (hnative : route.isNative = false) {h h' : StreamHead} {e : Event}
    {x : Decoded} (hdec : (eventDecoder provider route id created).decode h e = .ok (h', x))
    (hfin : x.finished = false) : GoesOn e := by
  rcases decode_ok hnative hdec with ⟨hblank, -⟩ | ⟨told, hconveys, -, hdecode⟩
  · exact Or.inl hblank
  · refine Or.inr ⟨told, hconveys, ?_, ?_⟩
    · rintro rfl
      rw [← (Prod.mk.inj (Except.ok.inj hdecode)).2] at hfin
      nomatch hfin
    · rintro kind message rfl
      nomatch hdecode

/-- The event that ends a stream well says nothing. -/
theorem conveys_of_finished (hnative : route.isNative = false) {h h' : StreamHead} {e : Event}
    {x : Decoded} (hdec : (eventDecoder provider route id created).decode h e = .ok (h', x))
    (hfin : x.finished = true) : Conveys e .messageStop ∧ x.frames = [] ∧ x.text = "" := by
  rcases decode_ok hnative hdec with ⟨-, -, -, rfl⟩ | ⟨told, hconveys, -, hdecode⟩
  · nomatch hfin
  · obtain ⟨-, hframes, htext, hstop⟩ := StreamHead.decode_told hdecode
    obtain rfl := hstop hfin
    exact ⟨hconveys, hframes, htext⟩

theorem breaks_of_failure? (hnative : route.isNative = false)
    {h : (eventDecoder provider route id created).State} {item : Item} {fault : RelayError}
    (hfault : (eventDecoder provider route id created).failure? h item = some fault) :
    Breaks item := by
  cases item with
  | broken detail => exact .broken detail
  | finished => exact .finished
  | event e =>
    rw [EventDecoder.failure?] at hfault
    rcases decode_cases provider id created hnative h e with
      ⟨-, -, hok⟩ | ⟨told, hconveys, -, htold⟩ | ⟨hblank, hgarbled, -⟩
    · rw [hok] at hfault
      cases hfault
    · rw [htold] at hfault
      cases hdecode : StreamHead.decode h provider told with
      | ok r =>
        rw [hdecode] at hfault
        cases hfault
      | error fault' =>
        obtain ⟨kind, message, rfl⟩ := StreamHead.failure_of_decode hdecode
        exact .told hconveys
    · exact .garbled hblank hgarbled

/-- Behind the end of a message a caller of chat completions gets the signal that the protocol has
for it. -/
theorem closing_of_not_native (hnative : route.isNative = false)
    (h : (eventDecoder provider route id created).State) :
    (eventDecoder provider route id created).closing h = [.done] := by
  show (if route.isNative then [] else [Frame.done]) = _
  rw [hnative]
  rfl

/-- Events that are heard: frames and text are those of one list of chunks, by induction on what is
heard. -/
theorem chunks_of_hears (hnative : route.isNative = false)
    {h h' : (eventDecoder provider route id created).State} {before : List Item}
    {heard : List Decoded}
    (hears : (eventDecoder provider route id created).Hears h before heard h') :
    ∃ events : List Event, before = events.map .event ∧ (∀ e ∈ events, GoesOn e) ∧
      heard.flatMap (·.frames)
        = (StreamHead.chunksOf h (events.filterMap told?)).map Frame.ofChunk ∧
      toldText heard
        = String.join ((StreamHead.chunksOf h (events.filterMap told?)).map Chat.Chunk.text) := by
  induction hears with
  | nil h => exact ⟨[], rfl, List.forall_mem_nil _, rfl, rfl⟩
  | @cons h h₁ h' e x rest heard hdec hfin _ ih =>
    obtain ⟨events, rfl, hgoes, hframes, htext⟩ := ih
    obtain ⟨chunks, hframes', htext', hcons⟩ := chunks_of_decode hnative hdec
    refine ⟨e :: events, rfl,
      List.forall_mem_cons.mpr ⟨goesOn_of_decode hnative hdec hfin, hgoes⟩, ?_, ?_⟩
    · rw [hcons, List.flatMap_cons, hframes, hframes', List.map_append]
    · rw [hcons, toldText_cons, htext, htext', List.map_append, String.join_append]

/-! ## What the caller gets

A full reading of a session gives all frames that were written, and what the call comes to. The last
item is read off the verdict. -/

/-- What every chunk of a stream is, whatever the events in it. -/
structure IsPieceOf (events : List Event) (created : Int) (c : Chat.Chunk) : Prop where
  read : Chat.Chunk.decoder.ofText c.toJson.print = .ok c
  notDone : (Frame.ofChunk c).encode ≠ Frame.done.encode
  created : c.created = created
  choices : ∃ content finish, c.choices = [⟨0, ⟨some .assistant, content⟩, finish⟩]
  /-- A reason for the end is one that the provider reported. -/
  reported : ∀ choice ∈ c.choices, ∀ f, choice.finishReason = some f →
    ∃ e ∈ events, ∃ reason usage, Conveys e (.messageDelta (some reason) usage) ∧
      Chat.FinishReason.ofStopReason? reason = some f

/-- Every chunk of a stream is of the form. It is printed and read back through the decoder of
chunks, which asks of the time that it fits. -/
theorem StreamHead.isPieceOf_of_mem {h : StreamHead} (hcreated : Json.IsInt64 h.created)
    {events : List Event} {c : Chat.Chunk} (hc : c ∈ h.chunksOf (events.filterMap told?)) :
    IsPieceOf events h.created c := by
  obtain ⟨told, htold, ⟨content, finish⟩, hp, id, model, rfl⟩ := exists_piece_of_mem_chunksOf hc
  refine ⟨Chat.Chunk.ofText_print hcreated, Frame.encode_ofChunk_ne_done _, rfl,
    ⟨content, finish, rfl⟩, fun choice hchoice f hf => ?_⟩
  obtain rfl := List.mem_singleton.mp hchoice
  obtain rfl : finish = some f := hf
  obtain ⟨reason, usage, rfl, hreason⟩ := StreamEvent.reason_of_mem_pieces hp
  obtain ⟨e, he, hsome⟩ := List.mem_filterMap.mp htold
  exact ⟨e, he, reason, usage, conveys_of_told? hsome, hreason⟩

/-- **Whatever events a provider sends, a caller of chat completions gets chunks of one form and one
last frame behind them.** `events` are those before the item that ends the stream, well or badly.

Each event that is heard becomes the chunks of its pieces, and its text is theirs
(`chunks_of_hears`). The item that ends the stream adds the last frame and no chunk. -/
theorem chunks_of_stream (hnative : route.isNative = false) (hcreated : Json.IsInt64 created)
    {items : List Item} {buffer patience : Nat} {moves : List Move}
    {fin : Session (eventDecoder provider route id created)}
    (hread : Session.FullyRead
      (.ofItems items route.isNative route.promptTokens buffer patience) moves fin) :
    let head : StreamHead := ⟨completionId id, route.actualModel, created⟩
    ∃ (events : List Event) (item : Item) (rest : List Item) (last : Frame)
      (result : Except RelayError Outcome),
      let tolds := events.filterMap told?
      let chunks := head.chunksOf tolds
      items ++ Move.arrivals moves = events.map .event ++ item :: rest ∧
      (∀ e ∈ events, GoesOn e) ∧ fin.courier.result? = some result ∧
      fin.received = chunks.map (fun c => .data c.toJson.print) ++ [last] ∧
      (∀ c ∈ chunks, IsPieceOf events created c) ∧
      (∀ pre start post, tolds = pre ++ start :: post → start.isStart = true →
        (∀ told ∈ post, told.isStart = false) → ∃ late id model,
          chunks = head.chunksOf pre ++ late ∧ ∀ c ∈ late, c.id = id ∧ c.model = model) ∧
      String.join (chunks.map Chat.Chunk.text) = fin.courier.text ∧
      ((∃ e outcome, item = .event e ∧ Conveys e .messageStop ∧ last = .done ∧
          result = .ok outcome ∧ outcome.text = fin.courier.text) ∨
        ∃ fault, Breaks item ∧ last = Frame.ofError false fault ∧
          last.encode ≠ Frame.done.encode ∧ result = .error fault) := by
  intro head
  obtain ⟨hreceived, hresult⟩ := hread.comesTo
  have htext := hread.text
  obtain ⟨result, hended⟩ := hread.ended
  have hsome : fin.courier.result? = some result := by rw [Courier.result?, hended]
  -- The verdict is on the items up to the first that ends the stream; those behind it are never
  -- looked at.
  obtain ⟨_, item, rest, heard, h', heq, hears, hend⟩ :=
    EventDecoder.exists_end_of_verdict (hresult.symm.trans hsome) route.isNative
  obtain ⟨events, rfl, hgoes, hframes, hsaid⟩ := chunks_of_hears hnative hears
  rw [hframes, hsaid, String.empty_append, ← hreceived] at hend
  rw [heq, EventDecoder.gathered_of_hears hears, hsaid, String.empty_append] at htext
  have hpieces : ∀ c ∈ head.chunksOf (events.filterMap told?), IsPieceOf events created c :=
    fun c hc => StreamHead.isPieceOf_of_mem (h := head) hcreated hc
  have hhead : ∀ pre start post, events.filterMap told? = pre ++ start :: post →
      start.isStart = true → (∀ told ∈ post, told.isStart = false) → ∃ late id model,
        head.chunksOf (events.filterMap told?) = head.chunksOf pre ++ late ∧
          ∀ c ∈ late, c.id = id ∧ c.model = model :=
    fun pre start post hsplit _ hpost => StreamHead.exists_head_of_split hsplit hpost
  rcases hend with ⟨e, h'', x, rfl, hdec, hfin, hsent, hok⟩ | ⟨fault, hfault, hsent, herror⟩
  · obtain ⟨hstop, hnothing, hsilent⟩ := conveys_of_finished hnative hdec hfin
    rw [hnothing, closing_of_not_native hnative] at hsent
    rw [hsilent, String.append_empty] at hok
    rw [EventDecoder.gathered_of_end hdec hfin, hsilent, String.append_empty] at htext
    exact ⟨events, _, rest, .done, result, heq, hgoes, hsome, hsent, hpieces, hhead, htext.symm,
      Or.inl ⟨e, _, rfl, hstop, rfl, hok, htext.symm⟩⟩
  · rw [hnative] at hsent
    rw [EventDecoder.gathered_of_failure? hfault] at htext
    exact ⟨events, item, rest, _, result, heq, hgoes, hsome, hsent, hpieces, hhead, htext.symm,
      Or.inr ⟨fault, breaks_of_failure? hnative hfault, rfl, Frame.encode_ofError_ne_done fault,
        herror⟩⟩

/-- A provider that says a word before the message begins: the caller gets the word in a chunk, the
beginning in another, and the end. -/
theorem word_before_beginning_is_translated :
    let word := "\x7b\"type\":\"content_block_delta\",\"delta\":\x7b\"text\":\"Hi\"\x7d\x7d"
    let start := "\x7b\"type\":\"message_start\",\"message\":\x7b\"id\":\"m\"\x7d\x7d"
    let stop := "\x7b\"type\":\"message_stop\"\x7d"
    let items : List Item :=
      [.event ⟨"message", word⟩, .event ⟨"message", start⟩, .event ⟨"message", stop⟩]
    let route : Route :=
      { channel := { id := "c", family := .anthropic, baseUrl := "", apiKey := "" }, model := "m",
        protocol := .completions, stream := true, promptTokens := 7 }
    let decoder := eventDecoder "anthropic" route "id" 0
    ∃ (moves : List Move) (fin : Session decoder) (chunks : List Chat.Chunk),
      Session.FullyRead (.ofItems items false 7 1 1000) moves fin ∧
        fin.received = chunks.map (fun c => .data c.toJson.print) ++ [.done] ∧
        (∀ c ∈ chunks, c.created = 0) ∧ String.join (chunks.map Chat.Chunk.text) = "Hi" := by
  intro word start stop items route decoder
  let head : StreamHead := ⟨"chatcmpl-id", "m", 0⟩
  let opened : StreamHead := ⟨"chatcmpl-m", "m", 0⟩
  have hword : decoder.decode head ⟨"message", word⟩
      = .ok (head, { frames := [head.chunk (some "Hi") none], text := "Hi" }) :=
    (decode_eq "anthropic" route "id" 0 _ _).trans (ok_of_toOption (by decide +kernel))
  have hstart : decoder.decode head ⟨"message", start⟩
      = .ok (opened, { frames := [opened.chunk (some "") none] }) :=
    (decode_eq "anthropic" route "id" 0 _ _).trans (ok_of_toOption (by decide +kernel))
  have hstop : decoder.decode opened ⟨"message", stop⟩ = .ok (opened, { finished := true }) :=
    (decode_eq "anthropic" route "id" 0 _ _).trans (ok_of_toOption (by decide +kernel))
  -- The head changes between the two events, and with it the id of the second chunk.
  have hears : decoder.Hears decoder.start
      [.event ⟨"message", word⟩, .event ⟨"message", start⟩] _ opened :=
    .cons hword rfl (.cons hstart rfl (.nil _))
  have hverdict : decoder.verdict route.promptTokens decoder.start "" {} items = some (.ok _) :=
    (EventDecoder.verdict_of_hears hears "" {} _).trans (EventDecoder.verdict_of_end hstop rfl [])
  obtain ⟨moves, harrivals, hread⟩ :=
    Session.fullyRead_run_of_verdict route.isNative 1 1000 hverdict
  have hresult := hread.comesTo.2
  rw [harrivals, List.append_nil, hverdict] at hresult
  obtain ⟨events, item, rest, last, result, -, -, hsome, hreceived, hpieces, -, htext, hends⟩ :=
    chunks_of_stream rfl ⟨by decide, by decide⟩ hread
  have hok := Option.some.inj (hsome.symm.trans hresult)
  rcases hends with ⟨e, outcome, -, -, rfl, houtcome, htext'⟩ | ⟨fault, -, -, -, hfault⟩
  · obtain rfl := Except.ok.inj (houtcome.symm.trans hok)
    exact ⟨moves, _, _, hread, hreceived, fun c hc => (hpieces c hc).created,
      htext.trans htext'.symm⟩
  · nomatch hfault.symm.trans hok

end ModelRelay.Claude
