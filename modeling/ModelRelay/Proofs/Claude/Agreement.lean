import ModelRelay.Proofs.Claude.Telling
import ModelRelay.Proofs.Provider.Streaming
import ModelRelay.Proofs.Sse.RoundTrip

/-!
# Streamed messages and whole ones

The relay translates a message in two ways, as a whole and event by event, and each has its own
code. Callers of chat completions get the same from both (`streamed_agrees_with_whole`): the same
text, in however many pieces it is told, the same counts, under the same id and model and with the
same reason for the end.

A stream may tell a message in many ways (`Answer.IsToldBy`): the text of a block may be split
anywhere, its beginning may come with text or without, counts that are not final may be reported
early, and events that tell nothing may stand anywhere between the others. The statement is about
all of them at once. It takes the events as they are read from the bytes of the answer, so how the
bytes were cut when they came makes no difference either.

An event is decoded to what it says, and of this the caller sees pieces of text and a reason for the
end (`StreamEvent.pieces`), while the bill sees the counts (`StreamEvent.reports`). Between its
beginning and its end a message consists of events whose decoding leaves the head
(`StreamHead.decode_inner`), so by induction chunks, text and counts of them are those of the pieces
and the reports, one after the other (`hears_inner`). Padding adds no piece and no report
(`Padded.conveys`). It is left to put together what the pieces of one message are
(`conveys_message`), and to place the beginning in front, under the old head before it and the new
one behind (`Answer.IsToldBy.hears`).

Streams that do not tell a message are no matter of this module. What a caller gets of those is in
`Claude.Translation`.
-/

set_option autoImplicit false

namespace ModelRelay.Claude

open Delivery Sse

/-! ## How a message is told

All events are told by the JSON in their data (`Tells`), never by bytes, so nothing here depends on
how a provider spells it. -/

/-- The events that tell a block: its beginning, with as much of the text as there is then, and one
event for each further piece. -/
inductive TellsBlock : Option String → List Event → Prop where
  | silent {start : Event} : StartsBlock none start → TellsBlock none [start]
  | text {first : Option String} {pieces : List String} {start : Event} {deltas : List Event} :
      StartsBlock first start →
      List.Forall₂ (fun piece delta => AddsText (some piece) delta) pieces deltas →
      TellsBlock (some (first.getD "" ++ String.join pieces)) (start :: deltas)

/-- The counts of a message as its beginning reports them, where the count of the answer is not
final, and as its end does. -/
inductive ReportsUsage : Option UsageReport → Option UsageReport → Option UsageReport → Prop where
  | unreported : ReportsUsage none none none
  | reported (input output : UInt32) (provisional : Option UInt32) :
      ReportsUsage (some ⟨some input, some output⟩) (some ⟨some input, provisional⟩)
        (some ⟨none, some output⟩)

/-- Events with others among them that tell nothing. -/
inductive Padded : List Event → List Event → Prop where
  | nil : Padded [] []
  | keep {e : Event} {core events : List Event} : Padded core events →
      Padded (e :: core) (e :: events)
  | pad {e : Event} {core events : List Event} : IsIdle e → Padded core events →
      Padded core (e :: events)

/-- The events tell the message: its beginning, its blocks, the end of the text and the end signal,
in this order, with events among them that tell nothing. What comes behind the end signal is never
read. -/
def Answer.IsToldBy (m : Answer) (events : List Event) : Prop :=
  ∃ early late opening blocks change stop, ReportsUsage m.usage early late ∧
    Opens m early opening ∧ List.Forall₂ TellsBlock m.blocks blocks ∧
    Changes m.stopReason late change ∧ Stops stop ∧
    Padded (opening :: (blocks.flatten ++ change :: [stop])) events

/-! ## What an event says

Pieces and reports are functions of the event, while the decoder turns events into chunks one by
one. That the two agree is the step lemma further down. -/

namespace StreamEvent

/-- What the chunks say that an event becomes: a piece of text, or the reason for the end. -/
def pieces : StreamEvent → List (Option String × Option Chat.FinishReason)
  | .messageStart _ _ _ => [(some "", none)]
  | .blockStart text => (text.filter (!·.isEmpty)).toList.map fun t => (some t, none)
  | .blockDelta text => text.toList.map fun t => (some t, none)
  | .messageDelta stopReason _ =>
    (stopReason.bind Chat.FinishReason.ofStopReason?).toList.map fun f => (none, some f)
  | .blockStop | .messageStop | .ping | .failure _ _ | .unknown => []

/-- The counts that an event reports. -/
def reports : StreamEvent → List UsageReport
  | .messageStart _ _ usage | .messageDelta _ usage => usage.toList
  | _ => []

/-- What may stand between the beginning of a message and its end. -/
def isInner : StreamEvent → Bool
  | .messageStart _ _ _ | .messageStop | .failure _ _ => false
  | _ => true

end StreamEvent

/-- The text of the pieces that have any. -/
def said (pieces : List (Option String × Option Chat.FinishReason)) : String :=
  String.join (pieces.filterMap (·.1))

/-- The chunks that say the pieces. -/
def StreamHead.chunks (h : StreamHead)
    (pieces : List (Option String × Option Chat.FinishReason)) : List Chat.Chunk :=
  pieces.map fun p => .ofDelta h.id h.model h.created p.1 p.2

theorem said_append (ps qs : List (Option String × Option Chat.FinishReason)) :
    said (ps ++ qs) = said ps ++ said qs := by
  rw [said, List.filterMap_append, String.join_append]
  rfl

theorem text_ofDelta (id model : String) (created : Int) (content : Option String)
    (finish : Option Chat.FinishReason) :
    (Chat.Chunk.ofDelta id model created content finish).text = content.getD "" := by
  cases content with
  | none => rfl
  | some text => simp [Chat.Chunk.ofDelta, Chat.Chunk.text]

theorem text_chunks (h : StreamHead) (ps : List (Option String × Option Chat.FinishReason)) :
    String.join ((h.chunks ps).map Chat.Chunk.text) = said ps := by
  induction ps with
  | nil => rfl
  | cons p rest ih =>
    obtain ⟨content, finish⟩ := p
    rw [StreamHead.chunks, List.map_cons, List.map_cons, String.join_cons, text_ofDelta]
    rw [StreamHead.chunks] at ih
    rw [ih]
    cases content with
    | none => simp [said]
    | some text => simp [said]

theorem finishReason_chunks (h : StreamHead)
    (ps : List (Option String × Option Chat.FinishReason)) :
    ((h.chunks ps).flatMap (·.choices)).filterMap (·.finishReason) = ps.filterMap (·.2) := by
  induction ps with
  | nil => rfl
  | cons p rest ih =>
    rw [StreamHead.chunks] at ih ⊢
    rw [List.map_cons, List.flatMap_cons, List.filterMap_append, ih, List.filterMap_cons]
    obtain ⟨content, finish⟩ := p
    cases finish <;> rfl

/-! ## What the decoder makes of it -/

/-- One event between the beginning and the end: the head stays, and the text of the event is what
its chunks say. -/
theorem StreamHead.decode_inner (h : StreamHead) (provider : String) {told : StreamEvent}
    (hinner : told.isInner = true) :
    ∃ x : Decoded, h.decode provider told = .ok (h, x) ∧ x.finished = false ∧
      x.frames = (h.chunks told.pieces).map Frame.ofChunk ∧ x.text = said told.pieces ∧
      ∀ u : Chat.PartialUsage, u.merge x.usage
        = told.reports.foldl (fun u r => u.merge ⟨r.input, r.output⟩) u := by
  have hmerge : ∀ u : Chat.PartialUsage, u.merge {} = u := fun _ => rfl
  cases told with
  | messageStart _ _ _ | messageStop | failure _ _ => nomatch hinner
  | blockStop | ping | unknown => exact ⟨{}, rfl, rfl, rfl, rfl, hmerge⟩
  | blockStart text =>
    rw [decode, StreamEvent.pieces]
    cases text.filter (!·.isEmpty) with
    | none => exact ⟨{}, rfl, rfl, rfl, rfl, hmerge⟩
    | some text =>
      refine ⟨_, rfl, rfl, rfl, ?_, hmerge⟩
      simp [said]
  | blockDelta text =>
    cases text with
    | none => exact ⟨{}, rfl, rfl, rfl, rfl, hmerge⟩
    | some text =>
      refine ⟨_, rfl, rfl, rfl, ?_, hmerge⟩
      simp [said, StreamEvent.pieces]
  | messageDelta stopReason usage =>
    refine ⟨_, rfl, rfl, ?_, ?_, ?_⟩
    · rw [StreamEvent.pieces]
      cases stopReason.bind Chat.FinishReason.ofStopReason? <;> rfl
    · rw [StreamEvent.pieces]
      cases stopReason.bind Chat.FinishReason.ofStopReason? <;> rfl
    · intro u
      cases usage <;> rfl

variable {provider : String} {route : Route} {id : String} {created : Int}

/-- A caller of chat completions gets of an event what it says, whatever else is in its data. -/
theorem decode_of_conveys (hnative : route.isNative = false) {h h' : StreamHead} {e : Event}
    {told : StreamEvent} {x : Decoded} (he : Conveys e told)
    (hdecode : h.decode provider told = .ok (h', x)) :
    (eventDecoder provider route id created).decode h e = .ok (h', x) := by
  refine (decode_eq provider route id created h e).trans ?_
  rw [hnative, decodeEvent]
  simp only [he.notBlank, he.read, Bool.false_eq_true, if_false]
  show h.decode provider told >>= _ = _
  rw [hdecode]
  rfl

/-- Events between the beginning and the end, by induction on them: chunks, text and counts are
those of the events, one after the other. -/
theorem hears_inner (provider id : String) (created : Int) (hnative : route.isNative = false)
    (h : StreamHead) {events : List Event} {tolds : List StreamEvent}
    (hconveys : List.Forall₂ Conveys events tolds)
    (hinner : ∀ told ∈ tolds, told.isInner = true) :
    ∃ xs : List Decoded,
      (eventDecoder provider route id created).Hears h (events.map .event) xs h ∧
        xs.flatMap (·.frames)
          = (h.chunks (tolds.flatMap StreamEvent.pieces)).map Frame.ofChunk ∧
        toldText xs = said (tolds.flatMap StreamEvent.pieces) ∧
        ∀ u, toldUsage u xs = (tolds.flatMap StreamEvent.reports).foldl
          (fun u r => u.merge ⟨r.input, r.output⟩) u := by
  induction hconveys with
  | nil =>
    -- The decoder cannot be inferred here: `h` is a head, and a state of this decoder only by
    -- unfolding it.
    exact ⟨[], @EventDecoder.Hears.nil (eventDecoder provider route id created) h, rfl, rfl,
      fun _ => rfl⟩
  | @cons e told events tolds he _ ih =>
    obtain ⟨x, hdecode, hfin, hframes, htext, husage⟩ :=
      h.decode_inner provider (hinner told List.mem_cons_self)
    obtain ⟨xs, hears, hframes', htext', husage'⟩ :=
      ih fun told hmem => hinner told (List.mem_cons_of_mem _ hmem)
    refine ⟨x :: xs, .cons (decode_of_conveys hnative he hdecode) hfin hears, ?_, ?_, ?_⟩
    · rw [List.flatMap_cons, List.flatMap_cons, hframes, hframes', StreamHead.chunks,
        StreamHead.chunks, StreamHead.chunks, List.map_append, List.map_append]
    · rw [toldText_cons, htext, htext', List.flatMap_cons, said_append]
    · intro u
      rw [toldUsage, List.foldl_cons, ← toldUsage, husage', husage, List.flatMap_cons,
        List.foldl_append]

/-! ## Events among others that tell nothing

Padding is taken off in two steps. First it is cut at the beginning and at the end of the message,
each of which is kept in it; then what lies between is shown to say what the core says. -/

/-- Padding is cut where an event of the core stands. -/
theorem Padded.split (before : List Event) {after events : List Event} {e : Event}
    (h : Padded (before ++ e :: after) events) :
    ∃ first rest, events = first ++ e :: rest ∧ Padded before first ∧ Padded after rest := by
  -- By induction on the padding: what stands before `e` goes to the first part.
  generalize hcore : before ++ e :: after = core at h
  induction h generalizing before with
  | nil =>
    cases before <;> nomatch hcore
  | @keep kept core events hpadded ih =>
    cases before with
    | nil =>
      obtain ⟨rfl, rfl⟩ := List.cons.inj hcore
      exact ⟨[], events, rfl, .nil, hpadded⟩
    | cons head before =>
      obtain ⟨rfl, hrest⟩ := List.cons.inj hcore
      obtain ⟨first, rest, rfl, hbefore, hafter⟩ := ih _ hrest
      exact ⟨head :: first, rest, rfl, .keep hbefore, hafter⟩
  | @pad idle core events hidle _ ih =>
    obtain ⟨first, rest, rfl, hbefore, hafter⟩ := ih _ hcore
    exact ⟨idle :: first, rest, rfl, .pad hidle hbefore, hafter⟩

theorem isInner_of_isIdle {told : StreamEvent} (h : told.isIdle = true) : told.isInner = true := by
  cases told <;> first | rfl | nomatch h

theorem pieces_of_isIdle {told : StreamEvent} (h : told.isIdle = true) : told.pieces = [] := by
  cases told with
  | blockDelta text =>
    cases text with
    | none => rfl
    | some _ => nomatch h
  | blockStop | ping | unknown => rfl
  | messageStart _ _ _ | blockStart _ | messageDelta _ _ | messageStop | failure _ _ => nomatch h

theorem reports_of_isIdle {told : StreamEvent} (h : told.isIdle = true) : told.reports = [] := by
  cases told with
  | blockDelta _ | blockStop | ping | unknown => rfl
  | messageStart _ _ _ | blockStart _ | messageDelta _ _ | messageStop | failure _ _ => nomatch h

/-- What is told with padding has the pieces and the reports of what is told without. By induction
on the padding: each event that is added has neither. -/
theorem Padded.conveys {core events : List Event} (h : Padded core events)
    {tolds : List StreamEvent} (hconveys : List.Forall₂ Conveys core tolds)
    (hinner : ∀ told ∈ tolds, told.isInner = true) :
    ∃ tolds', List.Forall₂ Conveys events tolds' ∧ (∀ told ∈ tolds', told.isInner = true) ∧
      tolds'.flatMap StreamEvent.pieces = tolds.flatMap StreamEvent.pieces ∧
      tolds'.flatMap StreamEvent.reports = tolds.flatMap StreamEvent.reports := by
  induction h generalizing tolds with
  | nil =>
    cases hconveys
    exact ⟨[], .nil, hinner, rfl, rfl⟩
  | keep _ ih =>
    cases hconveys with
    | @cons _ told _ tolds he hrest =>
      obtain ⟨tolds', hconveys', hinner', hpieces, hreports⟩ :=
        ih hrest fun told hmem => hinner told (List.mem_cons_of_mem _ hmem)
      refine ⟨told :: tolds', .cons he hconveys', ?_, ?_, ?_⟩
      · intro other hmem
        rcases List.mem_cons.mp hmem with rfl | hmem
        · exact hinner other List.mem_cons_self
        · exact hinner' other hmem
      · rw [List.flatMap_cons, List.flatMap_cons, hpieces]
      · rw [List.flatMap_cons, List.flatMap_cons, hreports]
  | pad hidle _ ih =>
    obtain ⟨idle, hisIdle, he⟩ := hidle.conveys
    obtain ⟨tolds', hconveys', hinner', hpieces, hreports⟩ := ih hconveys hinner
    refine ⟨idle :: tolds', .cons he hconveys', ?_, ?_, ?_⟩
    · intro other hmem
      rcases List.mem_cons.mp hmem with rfl | hmem
      · exact isInner_of_isIdle hisIdle
      · exact hinner' other hmem
    · rw [List.flatMap_cons, pieces_of_isIdle hisIdle, hpieces, List.nil_append]
    · rw [List.flatMap_cons, reports_of_isIdle hisIdle, hreports, List.nil_append]

/-- Of events with others among them only those that tell something are heard. -/
theorem Padded.hears (provider id : String) (created : Int) (hnative : route.isNative = false)
    (h : StreamHead) {core events : List Event} (hpadded : Padded core events)
    {tolds : List StreamEvent} (hconveys : List.Forall₂ Conveys core tolds)
    (hinner : ∀ told ∈ tolds, told.isInner = true) :
    ∃ xs : List Decoded,
      (eventDecoder provider route id created).Hears h (events.map .event) xs h ∧
        xs.flatMap (·.frames)
          = (h.chunks (tolds.flatMap StreamEvent.pieces)).map Frame.ofChunk ∧
        toldText xs = said (tolds.flatMap StreamEvent.pieces) ∧
        ∀ u, toldUsage u xs = (tolds.flatMap StreamEvent.reports).foldl
          (fun u r => u.merge ⟨r.input, r.output⟩) u := by
  obtain ⟨tolds', hconveys', hinner', hpieces, hreports⟩ := hpadded.conveys hconveys hinner
  rw [← hpieces, ← hreports]
  exact hears_inner provider id created hnative h hconveys' hinner'

/-! ## The text of a message

Only texts are joined here. How the events cut them makes no difference to `String.join`, and this
is where the many ways to tell a block become one. -/

/-- Text is all that is told. -/
def IsText (told : StreamEvent) (text : String) : Prop :=
  told.isInner = true ∧ said told.pieces = text ∧ told.pieces.filterMap (·.2) = [] ∧
    told.reports = []

theorem isText_blockStart (text : Option String) : IsText (.blockStart text) (text.getD "") := by
  refine ⟨rfl, ?_, ?_, rfl⟩
  all_goals
    rw [StreamEvent.pieces]
    cases text with
    | none => rfl
    | some text =>
      by_cases h : text.isEmpty
      · simp [said, Option.filter_some, String.isEmpty_iff.mp h]
      · simp [said, Option.filter_some, h]

theorem isText_blockDelta (piece : String) : IsText (.blockDelta (some piece)) piece :=
  ⟨rfl, by simp [said, StreamEvent.pieces], rfl, rfl⟩

/-- A block is told in texts that make up its text. A block without text is told in one empty
one. -/
theorem TellsBlock.conveys {text : Option String} {events : List Event}
    (h : TellsBlock text events) :
    ∃ tolds texts, List.Forall₂ Conveys events tolds ∧ List.Forall₂ IsText tolds texts ∧
      String.join texts = text.getD "" := by
  cases h with
  | silent hstart =>
    exact ⟨_, _, .cons hstart.conveys .nil, .cons (isText_blockStart none) .nil, rfl⟩
  | @text first pieces start deltas hstart hdeltas =>
    refine ⟨.blockStart first :: pieces.map fun piece => .blockDelta (some piece),
      first.getD "" :: pieces, .cons hstart.conveys ?_, .cons (isText_blockStart first) ?_, ?_⟩
    · rw [List.forall₂_map_right_iff]
      exact hdeltas.flip.imp fun _ _ h => AddsText.conveys h
    · rw [List.forall₂_map_left_iff, List.forall₂_same]
      exact fun piece _ => isText_blockDelta piece
    · rw [String.join_cons]
      rfl

theorem conveys_blocks {texts : List (Option String)} {blocks : List (List Event)}
    (h : List.Forall₂ TellsBlock texts blocks) :
    ∃ tolds said, List.Forall₂ Conveys blocks.flatten tolds ∧ List.Forall₂ IsText tolds said ∧
      String.join said = String.join (texts.filterMap fun t => t) := by
  induction h with
  | nil => exact ⟨[], [], .nil, .nil, rfl⟩
  | @cons text events texts blocks hblock _ ih =>
    obtain ⟨tolds, said, hconveys, htext, hjoin⟩ := hblock.conveys
    obtain ⟨tolds', said', hconveys', htext', hjoin'⟩ := ih
    refine ⟨tolds ++ tolds', said ++ said', List.rel_append hconveys hconveys',
      List.rel_append htext htext', ?_⟩
    rw [String.join_append, hjoin, hjoin']
    cases text with
    | none => exact String.empty_append
    | some text => exact String.join_cons.symm

/-- Events that tell text alone say the text, give no reason for an end and report no counts. -/
theorem pieces_of_isText {tolds : List StreamEvent} {texts : List String}
    (h : List.Forall₂ IsText tolds texts) :
    (∀ told ∈ tolds, told.isInner = true) ∧
      said (tolds.flatMap StreamEvent.pieces) = String.join texts ∧
      (tolds.flatMap StreamEvent.pieces).filterMap (·.2) = [] ∧
      tolds.flatMap StreamEvent.reports = [] := by
  induction h with
  | nil => exact ⟨fun _ hmem => absurd hmem List.not_mem_nil, rfl, rfl, rfl⟩
  | cons htext _ ih =>
    obtain ⟨hinner, hsaid, hfinish, hreports⟩ := htext
    obtain ⟨hinner', hsaid', hfinish', hreports'⟩ := ih
    refine ⟨?_, ?_, ?_, ?_⟩
    · intro told hmem
      rcases List.mem_cons.mp hmem with rfl | hmem
      · exact hinner
      · exact hinner' told hmem
    · rw [List.flatMap_cons, said_append, hsaid, hsaid', String.join_cons]
    · rw [List.flatMap_cons, List.filterMap_append, hfinish, hfinish', List.append_nil]
    · rw [List.flatMap_cons, hreports, hreports', List.append_nil]

/-- Between its beginning and its end a message tells its text, the reason for the end, and the
counts that are known last. -/
theorem conveys_message {m : Answer} {late : Option UsageReport} {blocks : List (List Event)}
    {change : Event} (hblocks : List.Forall₂ TellsBlock m.blocks blocks)
    (hchanges : Changes m.stopReason late change) :
    ∃ tolds, List.Forall₂ Conveys (blocks.flatten ++ [change]) tolds ∧
      (∀ told ∈ tolds, told.isInner = true) ∧
      said (tolds.flatMap StreamEvent.pieces) = m.text ∧
      (tolds.flatMap StreamEvent.pieces).filterMap (·.2)
        = (m.stopReason.bind Chat.FinishReason.ofStopReason?).toList ∧
      tolds.flatMap StreamEvent.reports = late.toList := by
  obtain ⟨tolds, texts, hconveys, htexts, hjoin⟩ := conveys_blocks hblocks
  obtain ⟨hinner, hsaid, hfinish, hreports⟩ := pieces_of_isText htexts
  refine ⟨tolds ++ [.messageDelta m.stopReason late],
    List.rel_append hconveys (.cons hchanges.conveys .nil), ?_, ?_, ?_, ?_⟩
  · intro told hmem
    rcases List.mem_append.mp hmem with hmem | hmem
    · exact hinner told hmem
    · rw [List.mem_singleton.mp hmem]
      rfl
  · rw [List.flatMap_append, said_append, hsaid, hjoin, List.flatMap_singleton, StreamEvent.pieces]
    cases m.stopReason.bind Chat.FinishReason.ofStopReason? <;> exact String.append_empty
  · rw [List.flatMap_append, List.filterMap_append, hfinish, List.flatMap_singleton,
      StreamEvent.pieces]
    cases m.stopReason.bind Chat.FinishReason.ofStopReason? <;> rfl
  · rw [List.flatMap_append, hreports, List.flatMap_singleton]
    rfl

/-! ## The whole stream -/

/-- A message that is told event by event: up to its end signal the decoder hears the text, the
reason for the end and the counts, in chunks of one head. -/
theorem Answer.IsToldBy.hears (provider id : String) (created : Int)
    (hnative : route.isNative = false) {m : Answer} {events : List Event}
    (htold : m.IsToldBy events) (start : StreamHead) :
    let h := start.opened (some m.id) m.model
    ∃ before stop rest told pieces, events = before ++ stop :: rest ∧
      (eventDecoder provider route id created).Hears start (before.map .event) told h ∧
      (eventDecoder provider route id created).decode h stop = .ok (h, { finished := true }) ∧
      told.flatMap (·.frames) = (h.chunks pieces).map Frame.ofChunk ∧
      toldText told = m.text ∧ said pieces = m.text ∧
      pieces.filterMap (·.2) = (m.stopReason.bind Chat.FinishReason.ofStopReason?).toList ∧
      toldUsage {} told = UsageReport.counts m.usage := by
  intro h
  obtain ⟨early, late, opening, blocks, change, stop, husage, hopens, hblocks, hchanges, hstops,
    hpadded⟩ := htold
  obtain ⟨idle, rest, rfl, hidle, hrest⟩ := hpadded.split []
  have hcore : blocks.flatten ++ change :: [stop] = (blocks.flatten ++ [change]) ++ [stop] := by
    rw [List.append_assoc]
    rfl
  rw [hcore] at hrest
  obtain ⟨inner, after, rfl, hinner, -⟩ := hrest.split _
  -- What stands before the beginning tells nothing, and the head is still the first one.
  obtain ⟨xs, hxs, hxsFrames, hxsText, hxsUsage⟩ :=
    hidle.hears provider id created hnative start .nil fun _ hmem => absurd hmem List.not_mem_nil
  let opened : Decoded :=
    { frames := [h.chunk (some "") none], usage := UsageReport.counts early }
  have hopened : (eventDecoder provider route id created).decode start opening = .ok (h, opened) :=
    decode_of_conveys hnative hopens.conveys rfl
  -- From here to the end signal the head is the one that the beginning told.
  obtain ⟨tolds, hconveys, hallInner, hsaid, hfinish, hreports⟩ := conveys_message hblocks hchanges
  obtain ⟨ys, hys, hysFrames, hysText, hysUsage⟩ :=
    hinner.hears provider id created hnative h hconveys hallInner
  refine ⟨idle ++ opening :: inner, stop, after, xs ++ opened :: ys,
    (some "", none) :: tolds.flatMap StreamEvent.pieces, ?_, ?_, ?_, ?_, ?_, ?_, hfinish, ?_⟩
  · rw [List.append_assoc, List.cons_append]
  · rw [List.map_append, List.map_cons]
    exact hxs.append (.cons hopened rfl hys)
  · exact decode_of_conveys hnative hstops.conveys rfl
  · rw [List.flatMap_append, List.flatMap_cons, hxsFrames, hysFrames]
    rfl
  · rw [toldText_append, toldText_cons, hxsText, hysText, hsaid]
    exact String.empty_append.trans String.empty_append
  · rw [← hsaid]
    simp [said]
  · rw [toldUsage_append, hxsUsage, toldUsage, List.foldl_cons, ← toldUsage, hysUsage, hreports]
    -- The later count of the answer replaces the provisional one; the prompt's stands.
    generalize m.usage = usage at husage ⊢
    cases husage <;> rfl

/-! ## The whole message -/

/-- What a whole message comes to for a caller of chat completions: its text, its counts as they are
completed, and the completion that is made of it. -/
theorem outcomeOf_of_isWritten {m : Answer} {body : Json} (hnative : route.isNative = false)
    (hbody : m.IsWritten body) :
    outcomeOf provider route created body = .ok
      { text := m.text
        usage := Chat.Usage.finalize (UsageReport.counts m.usage) route.promptTokens m.text
        body := some (m.toCompletion route created (Chat.Usage.finalize
          (UsageReport.counts m.usage) route.promptTokens m.text)).toJson.canonical } := by
  rw [outcomeOf, Answer.decoder_of_isWritten hbody, hnative]
  rfl

/-- **Callers of chat completions get of a streamed message what they get of the whole one.** The
stream is one of the spellings of the message, and what the caller reads of it does not depend on
which.

Both ways come down to the same facts about the message: its text is that of its blocks, its counts
are the last that were reported, and its reason for the end is translated by one table. -/
theorem streamed_agrees_with_whole (a : Adaptor) (hfamily : a.family ≠ .openai) (route : Route)
    (hnative : route.isNative = false) (fresh fresh' : Fresh) (m : Answer) (body : Json)
    (hbody : m.IsWritten body) (answer : Provider.Answer) (events : List Event) (rest : List Item)
    (hitems : answer.items = events.map .event ++ rest) (htold : m.IsToldBy events) :
    ∃ (whole : Outcome) (completion : Chat.Completion) (chunks : List Chat.Chunk),
      a.outcomeOf route fresh body = .ok whole ∧
      whole.body = some completion.toJson.canonical ∧
      (∀ frames result, a.Streams route fresh' answer frames result ↔
        frames = chunks.map Frame.ofChunk ++ [.done] ∧
          result = .ok { text := whole.text, usage := whole.usage }) ∧
      completion.choices.map (·.message.content)
        = [some (String.join (chunks.map Chat.Chunk.text))] ∧
      String.join (chunks.map Chat.Chunk.text) = whole.text ∧
      (∀ c ∈ chunks, c.id = completion.id ∧ c.model = completion.model) ∧
      (chunks.flatMap (·.choices)).filterMap (·.finishReason)
        = completion.choices.filterMap (·.finishReason) := by
  let h : StreamHead :=
    ⟨completionId m.id, m.model.getD route.actualModel, fresh'.now⟩
  let usage := Chat.Usage.finalize (UsageReport.counts m.usage) route.promptTokens m.text
  let completion := m.toCompletion route fresh.now usage
  have houtcome : a.outcomeOf route fresh body
      = .ok { text := m.text, usage, body := some completion.toJson.canonical } := by
    rw [Adaptor.outcomeOf_of_ne hfamily]
    exact outcomeOf_of_isWritten hnative hbody
  have hdecoder := Adaptor.eventDecoder_of_ne hfamily route fresh'
  obtain ⟨before, stop, after, told, pieces, rfl, hears, hstop, hframes, htext, hsaid, hfinish,
    husage⟩ := htold.hears a.provider fresh'.id fresh'.now hnative
      ⟨completionId fresh'.id, route.actualModel, fresh'.now⟩
  have hjoin : String.join ((h.chunks pieces).map Chat.Chunk.text) = m.text :=
    (text_chunks h pieces).trans hsaid
  refine ⟨_, completion, h.chunks pieces, houtcome, rfl, fun frames result => ?_, ?_, hjoin, ?_, ?_⟩
  · -- What is streamed is heard up to the end signal, so the items behind it, events or the end of
    -- the body, may be anything.
    have hsignal :
        answer.items = before.map .event ++ .event stop :: (after.map .event ++ rest) := by
      rw [hitems, List.map_append, List.append_assoc, List.map_cons, List.cons_append]
    have hclosing : (eventDecoder a.provider route fresh'.id fresh'.now).closing h = [.done] := by
      show (if route.isNative then [] else [Frame.done]) = _
      rw [hnative]
      rfl
    rw [Adaptor.streams_iff_of_end hdecoder hsignal hears hstop rfl, hframes, htext, husage]
    show frames = _ ++ ([] ++ (eventDecoder a.provider route fresh'.id fresh'.now).closing h) ∧
      result = .ok ⟨m.text ++ "", Chat.Usage.finalize _ _ (m.text ++ ""), none⟩ ↔ _
    rw [hclosing, String.append_empty]
    exact Iff.rfl
  · rw [hjoin]
    rfl
  · intro c hc
    obtain ⟨p, -, rfl⟩ := List.mem_map.mp hc
    exact ⟨rfl, rfl⟩
  · rw [finishReason_chunks, hfinish]
    show _ = List.filterMap _ [_]
    cases m.stopReason.bind Chat.FinishReason.ofStopReason? <;> rfl

set_option maxRecDepth 4000 in
/-- A greeting of one block: half of it is in the beginning of the block, and there is a ping before
the other half. -/
theorem greeting_agrees_with_whole :
    let m : Answer :=
      { id := "m", model := none, blocks := [some "Hi"], stopReason := some "end_turn",
        usage := some ⟨some 12, some 6⟩ }
    let body : Json := .object [
      ("content", .array [.object [("text", .string "Hi")]]), ("id", .string "m"),
      ("stop_reason", .string "end_turn"),
      ("usage", .object [("input_tokens", .ofNat 12), ("output_tokens", .ofNat 6)])]
    let sent : List Frame := [
      .data ("\x7b\"type\":\"message_start\",\"message\":\x7b\"id\":\"m\"," ++
        "\"usage\":\x7b\"input_tokens\":12\x7d\x7d\x7d"),
      .data "\x7b\"type\":\"content_block_start\",\"content_block\":\x7b\"text\":\"H\"\x7d\x7d",
      .event "ping" "\x7b\"type\":\"ping\"\x7d",
      .data "\x7b\"type\":\"content_block_delta\",\"delta\":\x7b\"text\":\"i\"\x7d\x7d",
      .data ("\x7b\"type\":\"message_delta\",\"delta\":\x7b\"stop_reason\":\"end_turn\"\x7d," ++
        "\"usage\":\x7b\"output_tokens\":6\x7d\x7d"),
      .data "\x7b\"type\":\"message_stop\"\x7d"]
    let answer : Provider.Answer := { body := (String.join (sent.map Frame.encode)).toUTF8 }
    let route : Route :=
      { channel := { id := "c", family := .anthropic, baseUrl := "", apiKey := "" }, model := "m",
        protocol := .completions, stream := true, promptTokens := 7 }
    m.IsWritten body ∧ answer.items = (sent.map Frame.told).map .event ++ [.finished] ∧
      m.IsToldBy (sent.map Frame.told) ∧
      ∃ chunks : List Chat.Chunk, String.join (chunks.map Chat.Chunk.text) = "Hi" ∧
        Adaptor.Streams { family := .anthropic } route ⟨"id", 0, 0⟩ answer
          (chunks.map Frame.ofChunk ++ [.done]) (.ok { text := "Hi", usage := ⟨12, 6, 18⟩ }) := by
  intro m body sent answer route
  have hbody : m.IsWritten body :=
    ⟨_, rfl, by decide, rfl, .absent, ⟨_, rfl, .cons ⟨_, rfl, by decide, .given rfl⟩ .nil⟩,
      .given rfl, .given ⟨_, rfl, by decide, .given rfl, .given rfl⟩⟩
  -- One fact for each event: what its data spells, and what that says.
  have hopens : Opens m (some ⟨some 12, none⟩) ⟨"message",
      "\x7b\"type\":\"message_start\",\"message\":\x7b\"id\":\"m\"," ++
        "\"usage\":\x7b\"input_tokens\":12\x7d\x7d\x7d"⟩ :=
    tells_of_spelledBy [("type", .string "message_start"),
      ("message", .object [("id", .string "m"), ("usage", .object [("input_tokens", .ofNat 12)])])]
      _ (by decide +kernel) rfl (by decide) rfl
      ⟨_, rfl, _, rfl, by decide, .given rfl, .absent,
        .given ⟨_, rfl, by decide, .given rfl, .absent⟩⟩
  have hblock : StartsBlock (some "H") ⟨"message",
      "\x7b\"type\":\"content_block_start\",\"content_block\":\x7b\"text\":\"H\"\x7d\x7d"⟩ :=
    tells_of_spelledBy [("type", .string "content_block_start"),
      ("content_block", .object [("text", .string "H")])]
      _ (by decide +kernel) rfl (by decide) rfl ⟨_, rfl, _, rfl, by decide, .given rfl⟩
  have hping : IsIdle ⟨"ping", "\x7b\"type\":\"ping\"\x7d"⟩ :=
    .ping (tells_of_spelledBy [("type", .string "ping")] _ (by decide +kernel) rfl (by decide) rfl
      trivial)
  have hdelta : AddsText (some "i") ⟨"message",
      "\x7b\"type\":\"content_block_delta\",\"delta\":\x7b\"text\":\"i\"\x7d\x7d"⟩ :=
    tells_of_spelledBy [("type", .string "content_block_delta"),
      ("delta", .object [("text", .string "i")])]
      _ (by decide +kernel) rfl (by decide) rfl ⟨_, rfl, _, rfl, by decide, .given rfl⟩
  have hchanges : Changes (some "end_turn") (some ⟨none, some 6⟩) ⟨"message",
      "\x7b\"type\":\"message_delta\",\"delta\":\x7b\"stop_reason\":\"end_turn\"\x7d," ++
        "\"usage\":\x7b\"output_tokens\":6\x7d\x7d"⟩ :=
    tells_of_spelledBy [("type", .string "message_delta"),
      ("delta", .object [("stop_reason", .string "end_turn")]),
      ("usage", .object [("output_tokens", .ofNat 6)])]
      _ (by decide +kernel) rfl (by decide) rfl
      ⟨⟨_, rfl, _, rfl, by decide, .given rfl⟩, .given ⟨_, rfl, by decide, .absent, .given rfl⟩⟩
  have hstops : Stops ⟨"message", "\x7b\"type\":\"message_stop\"\x7d"⟩ :=
    tells_of_spelledBy [("type", .string "message_stop")] _ (by decide +kernel) rfl (by decide) rfl
      trivial
  have htold : m.IsToldBy (sent.map Frame.told) :=
    ⟨_, _, _, _, _, _, .reported 12 6 none, hopens, .cons (.text hblock (.cons hdelta .nil)) .nil,
      hchanges, hstops, .keep (.keep (.pad hping (.keep (.keep (.keep .nil)))))⟩
  -- The frames are encoded and read back, so that the bytes are those of a stream.
  have hpayload : ∀ f ∈ sent, IsLine f.payload.toList := by
    have hall : ∀ f ∈ sent, (f.payload.toList.all fun c => c != '\n' && c != '\r') = true := by
      dsimp only [sent]
      decide +kernel
    intro f hf
    have hchars := List.all_eq_true.mp (hall f hf)
    exact ⟨fun h => absurd (hchars _ h) (by decide), fun h => absurd (hchars _ h) (by decide)⟩
  have hclean : ∀ f ∈ sent, f.told.IsClean := by
    intro f hf
    have hname : f.told.name = "message" ∨ f.told.name = "ping" := by
      simp only [sent, List.mem_cons, List.not_mem_nil, or_false] at hf
      rcases hf with rfl | rfl | rfl | rfl | rfl | rfl <;> decide
    refine ⟨?_, ?_, ?_⟩
    · rcases hname with h | h <;> rw [h] <;> decide
    · rcases hname with h | h <;> rw [h] <;> exact ⟨by decide, by decide⟩
    · rw [Frame.data_told]
      exact (hpayload f hf).2
  have hevents : Event.ofBytes answer.bytes = (sent.map Frame.told, true) :=
    (ofBytes_encode_iff hclean).mpr fun f hf => (hpayload f hf).1
  have hitems : answer.items = (sent.map Frame.told).map .event ++ [.finished] := by
    rw [Provider.Answer.items, hevents]
    rfl
  have husage : Chat.Usage.finalize (UsageReport.counts m.usage) 7 m.text = ⟨12, 6, 18⟩ := by
    decide
  obtain ⟨whole, completion, chunks, hwhole, -, hstreams, -, hchunks, -⟩ :=
    streamed_agrees_with_whole { family := .anthropic } (by decide) route rfl ⟨"id", 0, 0⟩
      ⟨"id", 0, 0⟩ m body hbody answer _ _ hitems htold
  obtain rfl := Except.ok.inj (hwhole.symm.trans (outcomeOf_of_isWritten rfl hbody))
  refine ⟨hbody, hitems, htold, chunks, hchunks, ?_⟩
  rw [hstreams, ← husage]
  exact ⟨rfl, rfl⟩

end ModelRelay.Claude
