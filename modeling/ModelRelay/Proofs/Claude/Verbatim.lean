import ModelRelay.Chat.Acceptance
import ModelRelay.Proofs.Chat.Parsing
import ModelRelay.Proofs.Claude.Conversation

/-!
# What native callers get through

A caller who speaks the Messages protocol sends blocks and members that the relay has no type for,
and they are to reach the provider as they were sent. This module says which of them do. All members
of the request that have no field do, and so do blocks at the top unless a turn adds instructions to
them. **A turn does or does not as a whole**: its blocks are kept if one of them is no typed part,
and otherwise what is left of each is its text or its image, and every other member of it is gone
(`ofChat_keeps_native`).

Both sides are stated over JSON. What was sent is the value that the bytes spell, and what arrives
is read off the body of the request (`saidInBody`). Equal values have equal canonical forms.

The question for a turn comes down to `StayWhole`, a condition on the JSON that was sent. One half
of it is about a single item: a part that is converted is still what was sent only if it was a text
and nothing else (`ofPart_eq_iff`), because a text is written anew from its words alone and an image
under a tag that no part has. The other half is about the reader of a message, which tries parts
first and keeps the blocks if one of them is none. `heardFrom_iff` puts the halves together for a
turn, and the request takes it turn by turn.

A document beside a marked text keeps the mark on it, and without the document the mark is lost
(`document_keeps_mark`, `text_loses_mark`). The same block is thus forwarded or not by what stands
beside it.

Nothing is said of turns that the tools or the instructions have, nor of pictures for providers that
do not see them.
-/

set_option autoImplicit false

namespace ModelRelay.Claude

open Decoder

/-! ## Reading the body of a request

The readings below look at a body as its receiver does. They know nothing of turns or contents as
the relay has them, so what is proved through them is about the bytes that are sent. -/

/-- What a turn of a body says, block by block, and who says it. A string is one block of text. -/
def saidInTurn (turn : Json) : List (String × Json) :=
  match turn.get? "role", turn.get? "content" with
  | some (.string role), some (.array blocks) => blocks.map fun block => (role, block)
  | some (.string role), some (.string s) => [(role, (Block.text s).toJson.canonical)]
  | _, _ => []

/-- What the turns of a body say, one after the other. -/
def saidInBody (body : Json) : List (String × Json) :=
  match body.get? "messages" with
  | some (.array turns) => turns.flatMap saidInTurn
  | _ => []

/-- What a message adds to that. -/
def heardFrom (vision : Bool) (m : Chat.Message) : List (String × Json) :=
  (saidBy vision m).map fun said => (said.1, said.2.canonical)

/-- Who says a value is not changed by the order of the value's members. -/
theorem canonical_said (role : String) (values : List Json) :
    (values.map fun value => (role, value)).map (fun said => (said.1, said.2.canonical))
      = (values.map Json.canonical).map fun value => (role, value) := by
  simp only [List.map_map, Function.comp_def]

/-- A turn is written so that it is read as what it says. Content that is one string is one block of
text to both. -/
theorem saidInTurn_toJson (t : Turn) :
    saidInTurn t.toJson.canonical = t.said.map fun said => (said.1, said.2.canonical) := by
  have hget : ∀ name, t.toJson.canonical.get? name
      = (List.lookup name [("role", .string t.role), ("content", t.content.toJson)]).map
          Json.canonical := by
    intro name
    apply Json.get?_canonical
    show ["role", "content"].Nodup
    decide
  have hrole : t.toJson.canonical.get? "role" = some (.string t.role) := hget "role"
  have hcontent : t.toJson.canonical.get? "content" = some t.content.toJson.canonical :=
    hget "content"
  rw [saidInTurn, hrole, hcontent, Turn.said, canonical_said]
  cases t.content with
  | text s =>
    simp only [Content.toJson, Content.toValues, List.map_cons, List.map_nil,
      Json.canonical_canonical]
    rfl
  | blocks bs =>
    simp only [Content.toJson, Content.toValues, Json.canonical_array, List.map_map,
      Function.comp_def, Json.canonical_canonical]
  | raw values =>
    simp only [Content.toJson, Content.toValues, Json.canonical_array]

/-! ## The members of the body

Members with a field come first and those without behind them. As no name is in both lists, each
member can be looked up in its own. -/

namespace Request

/-- The members of the body that have a field. -/
def fieldMembers (r : Request) : List (String × Option Json) :=
  let word (n : UInt32) : Json := .ofNat n.toNat
  [("model", some (.string r.model)), ("messages", some (.array (r.turns.map Turn.toJson))),
   ("system", r.system.map Chat.SystemPrompt.toJson), ("max_tokens", some (word r.maxTokens)),
   ("temperature", r.temperature.map .ofSingle), ("top_p", r.topP.map .ofSingle),
   ("top_k", r.topK.map word), ("stop_sequences", r.stopSequences.map .ofStrings),
   ("stream", if r.stream then some (.bool true) else none)]

/-- The names of the members that have a field. -/
def fieldNames : List String :=
  ["model", "messages", "system", "max_tokens", "temperature", "top_p", "top_k", "stop_sequences",
   "stream"]

theorem toJson_eq (r : Request) :
    r.toJson
      = .ofMembers (r.fieldMembers ++ r.extra.map fun (name, value) => (name, some value)) := rfl

/-- No member without a field has the name of one. -/
def ExtraIsApart (r : Request) : Prop :=
  Json.Sorted r.extra ∧ ∀ name ∈ fieldNames, r.extra.lookup name = none

theorem lookup_map_some {α : Type} (name : String) (members : List (String × α)) :
    (members.map fun (name, value) => (name, some value)).lookup name
      = (members.lookup name).map some := by
  induction members with
  | nil => rfl
  | cons m rest ih =>
    obtain ⟨first, value⟩ := m
    rw [List.map_cons, Json.lookup_cons_eq, Json.lookup_cons_eq, ih]
    by_cases h : name = first
    · simp only [if_pos h, Option.map_some]
    · simp only [if_neg h]

variable {r : Request}

/-- A member of the body is looked up among the fields and then among the others. This needs the
names of both lists to be distinct. -/
theorem ExtraIsApart.get?_body (h : ExtraIsApart r) (name : String) :
    r.toJson.canonical.get? name
      = ((r.fieldMembers.lookup name).or ((r.extra.lookup name).map some)).join.map
          Json.canonical := by
  rw [toJson_eq, Json.get?_canonical_ofMembers, List.lookup_append, lookup_map_some]
  rw [List.map_append, List.map_map]
  show (fieldNames ++ r.extra.map Prod.fst).Nodup
  rw [List.nodup_append]
  refine ⟨by decide, h.1.nodup, ?_⟩
  intro name hname other hother heq
  subst heq
  exact Json.notMem_of_lookup (h.2 name hname) hother

theorem ExtraIsApart.get?_extra (h : ExtraIsApart r) {name : String} (hname : name ∉ fieldNames) :
    r.toJson.canonical.get? name = (r.extra.lookup name).map Json.canonical := by
  have hfield : r.fieldMembers.lookup name = none := Json.lookup_eq_none hname
  rw [h.get?_body, hfield, Option.none_or]
  cases r.extra.lookup name <;> rfl

theorem ExtraIsApart.saidInBody (h : ExtraIsApart r) :
    saidInBody r.toJson.canonical
      = (r.turns.flatMap Turn.said).map fun said => (said.1, said.2.canonical) := by
  have hturns : r.toJson.canonical.get? "messages"
      = some (.array (r.turns.map fun t => t.toJson.canonical)) := by
    rw [h.get?_body]
    show some (Json.array (r.turns.map Turn.toJson)).canonical = _
    rw [Json.canonical_array, List.map_map]
    rfl
  rw [Claude.saidInBody, hturns, List.map_flatMap]
  show (r.turns.map _).flatMap saidInTurn = _
  rw [List.flatMap_map]
  exact List.flatMap_congr fun t _ => saidInTurn_toJson t

end Request

/-! ## What is left of a part

A part is typed: a text or a link to an image. What was sent may have had further members, such as a
mark for the cache, and these have no place in it. -/

/-- The item is a text and nothing else. -/
def IsPlainText (item : Json) : Prop :=
  ∃ s, item.canonical = .object [("text", .string s), ("type", .string "text")]

/-- A member of an item whose canonical form is known, if it is a string. -/
theorem lookup_of_canonical {members sorted : List (String × Json)} {name s : String}
    (hdistinct : (Json.object members).isDistinct = true)
    (hcanonical : (Json.object members).canonical = .object sorted)
    (hlookup : sorted.lookup name = some (.string s)) :
    members.lookup name = some (.string s) := by
  have hget := Json.get?_canonical (Json.nodup_of_isDistinct hdistinct) name
  rw [hcanonical] at hget
  obtain ⟨value, hvalue, hs⟩ := Option.map_eq_some_iff.mp (hget.symm.trans hlookup)
  rw [hvalue, Json.eq_string_of_canonical hs]

theorem fills_text : Fills Chat.ContentPart.putText "text" text id := by
  refine fills_single fun s field r => ?_
  unfold Chat.ContentPart.putText
  split
  · rfl
  · rename_i hne
    rw [if_neg hne]

variable {members : List (String × Json)} {part : Chat.ContentPart}

/-- The tag of a part, where it is given by name, and the part behind it. -/
theorem part_of_type {name : String} (hdistinct : (Json.object members).isDistinct = true)
    (htype : members.lookup "type" = some (.string name))
    (h : Chat.ContentPart.decoder true (.ofJson (.object members)) = .ok part) :
    name ∈ (Chat.ContentPart.tags true).names ∧
      (Chat.ContentPart.body name
        (.ofJson (.object (Json.eraseMember "type" members)))).mapError Mismatch.settled
          = .ok part := by
  rw [Chat.ContentPart.decoder,
    tagged_object (Json.nodup_of_isDistinct hdistinct) htype] at h
  obtain ⟨tag, hread, hbody⟩ := exists_of_bind_ok h
  have hread : (if (Chat.ContentPart.tags true).names.contains name then pure name
      else throw (.unknown name (Chat.ContentPart.tags true).names) : Except Mismatch String)
        = .ok tag := hread
  split at hread
  · rename_i hmem
    rw [← Except.ok.inj hread] at hbody
    exact ⟨List.contains_iff_mem.mp hmem, hbody⟩
  · nomatch hread

/-- A record with the tag and the text of a text is read as that text, whatever other members it
has. -/
theorem text_of_type {s : String} (hdistinct : (Json.object members).isDistinct = true)
    (htype : members.lookup "type" = some (.string "text"))
    (htext : members.lookup "text" = some (.string s))
    (h : Chat.ContentPart.decoder true (.ofJson (.object members)) = .ok part) :
    part = .text s := by
  obtain ⟨-, hbody⟩ := part_of_type hdistinct htype h
  obtain ⟨slot, hrecord, h⟩ := exists_of_bind_ok (of_mapError_ok hbody)
  obtain ⟨t, ht, h⟩ := exists_of_bind_ok h
  obtain ⟨found, hfound, hs⟩ := fills_text.lookup hrecord rfl (need_ok ht)
  rw [Json.lookup_eraseMember, if_neg (by decide), htext] at hfound
  rw [← Option.some.inj hfound] at hs
  rw [← Except.ok.inj h, ← Except.ok.inj hs]

/-- **A part that is converted is still what was sent only if that was a text and nothing else.** -/
theorem ofPart_eq_iff {item : Json} (hdistinct : item.isDistinct = true)
    (h : Chat.ContentPart.decoder true (.ofJson item) = .ok part) :
    (Content.ofPart part).toJson.canonical = item.canonical ↔ IsPlainText item := by
  constructor
  · intro heq
    cases part with
    | text s => exact ⟨s, heq.symm⟩
    | image image =>
      -- An image goes out under a tag that no part has.
      have hcanonical : item.canonical
          = .object [("source", (ImageSource.ofLink image.url).toJson.canonical),
              ("type", .string "image")] := heq.symm
      cases item with
      | object members =>
        have htype : members.lookup "type" = some (.string "image") :=
          lookup_of_canonical hdistinct hcanonical rfl
        exact absurd (part_of_type hdistinct htype h).1 (by decide)
      | null | bool _ | number n | string _ | array _ => nomatch hcanonical
  · intro hplain
    obtain ⟨s, hcanonical⟩ := hplain
    cases item with
    | object members =>
      have htype : members.lookup "type" = some (.string "text") :=
        lookup_of_canonical hdistinct hcanonical rfl
      have htext : members.lookup "text" = some (.string s) :=
        lookup_of_canonical hdistinct hcanonical rfl
      rw [text_of_type hdistinct htype htext h, hcanonical]
      rfl
    | null | bool _ | number n | string _ | array _ => nomatch hcanonical

theorem not_isPart_of_type {item : Json} {name : String} (hdistinct : item.isDistinct = true)
    (htype : item.get? "type" = some (.string name))
    (hname : name ∉ (Chat.ContentPart.tags true).names) : ¬ Chat.IsPart item := by
  rintro ⟨part, hpart⟩
  cases item with
  | object members => exact hname (part_of_type hdistinct htype hpart).1
  | null | bool _ | number n | string _ | array _ => nomatch htype

/-! ## Turns that are kept

The reader of a message tries parts first and falls back on blocks, for the list as a whole. That is
why one block decides for its neighbours. -/

/-- What decides on the blocks of a turn: one of them is no typed part, so that all are kept as they
came, or all are texts and nothing else, so that writing them anew gives the same. -/
def StayWhole (items : List Json) : Prop :=
  (∃ item ∈ items, ¬ Chat.IsPart item) ∨ ∀ item ∈ items, IsPlainText item

/-- A block of a kind that is neither text nor a link to an image keeps its whole turn. -/
theorem stayWhole_of_type {items : List Json} {item : Json} {name : String} (hitem : item ∈ items)
    (hdistinct : item.isDistinct = true) (htype : item.get? "type" = some (.string name))
    (hname : name ≠ "text" ∧ name ≠ "image_url") : StayWhole items := by
  refine Or.inl ⟨item, hitem, not_isPart_of_type hdistinct htype ?_⟩
  simpa [Chat.ContentPart.tags] using hname

/-- The turn gives its role, as a name or as an object of that one name. -/
def IsFrom (turn : Json) (role : String) : Prop :=
  turn.get? "role" = some (.string role) ∨ turn.get? "role" = some (.object [(role, .null)])

theorem isFrom_iff {turn : Json} {m : Chat.Message} {role : String}
    (h : Chat.Message.decoder (.ofJson turn) = .ok m) : IsFrom turn role ↔ m.role.name = role := by
  obtain ⟨members, rfl, ⟨found, hfound, hrole⟩, -⟩ := Chat.Message.decoder_ok h
  have hget : (Json.object members).get? "role" = some found := hfound
  rw [IsFrom, hget]
  rcases Chat.Role.decoder_ok hrole with rfl | rfl
  · simp
  · simp

/-- What the user or the assistant says is their content, with or without pictures. -/
theorem saidBy_of_name {m : Chat.Message} {role : String} (vision : Bool)
    (hname : m.role.name = role) (hrole : role = "user" ∨ role = "assistant") :
    ∃ links, saidBy vision m = saidIn role (Content.ofChat? links m.content) := by
  cases hm : m.role with
  | user =>
    refine ⟨vision, ?_⟩
    rw [saidBy, hm, ← hname, hm]
    rfl
  | assistant =>
    refine ⟨false, ?_⟩
    rw [saidBy, hm, ← hname, hm]
    rfl
  | system | developer | tool =>
    rw [hm] at hname
    rw [← hname] at hrole
    exact absurd hrole (by decide)

/-- Parts are passed on as they were sent exactly if each was a text and nothing else. By induction
along the items and the parts read from them. -/
theorem heardFrom_parts {parts : List Chat.ContentPart} {items : List Json}
    {role : String} {links : Bool} (hitems : ∀ item ∈ items, item.isDistinct = true)
    (hparts : List.Forall₂
      (fun item part => Chat.ContentPart.decoder true (.ofJson item) = .ok part) items parts) :
    (saidIn role (Content.ofChat? links (.parts parts))).map
        (fun said => (said.1, said.2.canonical))
          = items.map (fun item => (role, item.canonical))
      ↔ ∀ item ∈ items, IsPlainText item := by
  have hsaid : (saidIn role (Content.ofChat? links (.parts parts))).map
      (fun said => (said.1, said.2.canonical))
        = parts.map fun part => (role, (Content.ofPart part).toJson.canonical) := by
    show ((((parts.map Content.ofPart).map fun b => b.toJson.canonical).map
      fun value => (role, value)).map fun said => (said.1, said.2.canonical)) = _
    simp only [List.map_map, Function.comp_def, Json.canonical_canonical]
  rw [hsaid]
  clear hsaid
  induction hparts with
  | nil => simp
  | cons hpart _ ih =>
    have hhead := ofPart_eq_iff (hitems _ List.mem_cons_self) hpart
    have hrest := ih fun item hitem => hitems item (List.mem_cons_of_mem _ hitem)
    simp only [List.map_cons, List.cons.injEq, Prod.mk.injEq, true_and, List.forall_mem_cons, hhead,
      hrest]

/-- **A turn is passed on as it was sent exactly if its blocks stay whole.** -/
theorem heardFrom_iff {turn : Json} {m : Chat.Message} {role : String} {items : List Json}
    (hdistinct : turn.isDistinct = true) (hsingle : (Reading.ofJson turn).noSingle = true)
    (hdecoded : Chat.Message.decoder (.ofJson turn) = .ok m) (vision : Bool)
    (hrole : role = "user" ∨ role = "assistant") (hfrom : IsFrom turn role)
    (hcontent : turn.get? "content" = some (.array items)) :
    heardFrom vision m = items.map (fun item => (role, item.canonical)) ↔ StayWhole items := by
  have hname := (isFrom_iff hdecoded).mp hfrom
  obtain ⟨members, rfl, -, hcontents⟩ := Chat.Message.decoder_ok hdecoded
  have hread := hcontents _ hcontent
  have hitems : ∀ item ∈ items, item.isDistinct = true := fun item hitem =>
    Json.isDistinct_of_mem (Json.isDistinct_of_lookup hdistinct hcontent) hitem
  obtain ⟨links, hsaid⟩ := saidBy_of_name vision hname hrole
  rw [heardFrom, hsaid]
  -- Typed parts are written anew. Blocks are not, and then both sides of the equivalence hold.
  by_cases hparts : ∀ item ∈ items, Chat.IsPart item
  · obtain ⟨parts, hm, hall⟩ := Chat.Content.parts_of_decoder_ok hparts hread
    rw [hm, heardFrom_parts hitems hall]
    refine ⟨Or.inr, ?_⟩
    rintro (⟨item, hitem, hno⟩ | hplain)
    · exact absurd (hparts item hitem) hno
    · exact hplain
  · have hother : ∃ item ∈ items, ¬ Chat.IsPart item := by
      simpa using hparts
    have hm := Chat.Content.blocks_of_decoder_ok (Reading.noSingle_of_lookup hsingle hcontent)
      hother hread
    refine iff_of_true ?_ (Or.inl hother)
    rw [hm]
    show (((items.map Json.canonical).map fun value => (role, value)).map
      fun said => (said.1, said.2.canonical)) = _
    simp only [List.map_map, Function.comp_def, Json.canonical_canonical]

/-! ## The request as a whole

The decoder of requests gives the facts about the value that was sent; what remains is to follow
each part of it into the body. -/

theorem said_ofChat (r : Chat.Request) (vision : Bool) (protocol : Protocol) :
    (Request.ofChat r vision protocol).turns.flatMap Turn.said
      = r.messages.flatMap (saidBy vision) := by
  show (joinTurns _).flatMap _ = _
  rw [said_joinTurns, List.filterMap_eq_flatMap_toList, List.flatMap_assoc]
  exact List.flatMap_congr fun m _ => said_ofMessage? vision m

/-- What a native caller sends without a field has no name of a field of the body, since all of
these are names of fields of the request too. -/
theorem extraIsApart_ofChat {r : Chat.Request} {members : List (String × Json)}
    (hsorted : Json.Sorted r.extra)
    (hextra : ∀ name, r.extra.lookup name
      = if name ∈ Chat.Request.fieldNames then none
        else (members.lookup name).map Json.canonical) (vision : Bool) :
    (Request.ofChat r vision .messages).ExtraIsApart := by
  refine ⟨hsorted, fun name hname => ?_⟩
  have hfield : name ∈ Chat.Request.fieldNames := by
    have hall : ∀ name ∈ Request.fieldNames, name ∈ Chat.Request.fieldNames := by decide
    exact hall name hname
  show r.extra.lookup name = none
  rw [hextra name, if_pos hfield]

/-- Blocks at the top are kept if no turn gives instructions. -/
theorem system_ofChat {r : Chat.Request} {vision : Bool} {turns blocks : List Json}
    (hapart : (Request.ofChat r vision .messages).ExtraIsApart)
    (hmessages : List.Forall₂
      (fun turn m => Chat.Message.decoder (.ofJson turn) = .ok m) turns r.messages)
    (hsystem : r.system = some (.blocks (blocks.map Json.canonical)))
    (hturns : ∀ turn ∈ turns, ¬ IsFrom turn "system" ∧ ¬ IsFrom turn "developer") :
    (Request.ofChat r vision .messages).toJson.canonical.get? "system"
      = some (.array (blocks.map Json.canonical)) := by
  have hkeeps : KeepsBlocks r .messages := by
    refine ⟨rfl, ⟨_, hsystem⟩, fun m hm => ?_⟩
    obtain ⟨turn, hturn, hread⟩ := exists_of_forall₂_of_mem hmessages.flip hm
    obtain ⟨hnosystem, hnodeveloper⟩ := hturns turn hturn
    rw [isFrom_iff hread] at hnosystem hnodeveloper
    constructor
    · intro heq
      exact hnosystem (congrArg Chat.Role.name heq)
    · intro heq
      exact hnodeveloper (congrArg Chat.Role.name heq)
  have hout : (Request.ofChat r vision .messages).system = r.system := systemOf_keeps hkeeps
  rw [hapart.get?_body]
  show ((Request.ofChat r vision .messages).system.map Chat.SystemPrompt.toJson).map
    Json.canonical = _
  rw [hout, hsystem]
  show some (Json.array (blocks.map Json.canonical)).canonical = _
  rw [Json.canonical_array, List.map_map]
  exact congrArg (fun f => some (Json.array (blocks.map f))) (funext Json.canonical_canonical)

/-- **What a native caller sends reaches the provider unchanged: every member without a field,
blocks at the top, and the blocks of each turn that stay whole, in order and under their role.** All
other turns lose something.

The members and the blocks at the top are copied. A turn is read as typed parts where all of its
blocks can be, and a part is written anew from its type, so that what it had besides is lost; where
one of them cannot be read so, the blocks are kept as they came. -/
theorem ofChat_keeps_native (sent : Json) (s : List UInt8) (r : Chat.Request) (vision : Bool)
    (hspelled : sent.SpelledBy s) (hdistinct : sent.isDistinct = true)
    (haccepted : Chat.Request.ofBytes s = .ok r) :
    let body := (Request.ofChat r vision .messages).toJson.canonical
    ∃ turns, sent.get? "messages" = some (.array turns) ∧
      -- What is said in the body is what the turns say, one after the other.
      saidInBody body = r.messages.flatMap (heardFrom vision) ∧
      List.Forall₂ (fun turn m => ∀ role items, role = "user" ∨ role = "assistant" →
        IsFrom turn role → turn.get? "content" = some (.array items) →
          (heardFrom vision m = items.map (fun item => (role, item.canonical))
            ↔ StayWhole items)) turns r.messages ∧
      (∀ name ∉ Chat.Request.fieldNames,
        body.get? name = (sent.get? name).map Json.canonical) ∧
      ∀ blocks, sent.get? "system" = some (.array blocks) →
        (∀ turn ∈ turns, ¬ IsFrom turn "system" ∧ ¬ IsFrom turn "developer") →
        body.get? "system" = some (.array (blocks.map Json.canonical)) := by
  intro body
  have hdecoded : Chat.Request.decoder (.ofJson sent) = .ok r := by
    rw [← hspelled.ofBytes Chat.Request.decoder]
    exact of_mapError_ok haccepted
  have hsingle := hspelled.noSingle
  obtain ⟨members, rfl, ⟨turns, hturns, hmessages⟩, hsystem, hsorted, hextra⟩ :=
    Chat.Request.decoder_ok hsingle hdecoded
  have hextra := hextra (Json.nodup_of_isDistinct hdistinct)
  -- No name is in the body twice, so whatever is said of its members can be looked up.
  have hapart := extraIsApart_ofChat hsorted hextra vision
  have hturnsDistinct := Json.isDistinct_of_lookup hdistinct hturns
  have hturnsSingle := Reading.noSingle_of_lookup hsingle hturns
  refine ⟨turns, hturns, ?_, ?_, ?_, ?_⟩
  · rw [hapart.saidInBody, said_ofChat, List.map_flatMap]
    rfl
  · -- Turns are compared by their place, for the facts about a turn need that it is one of them.
    refine (List.forall₂_iff_get.mpr ⟨hmessages.length_eq, fun i hturn hm => ?_⟩)
    intro role items hrole hfrom hcontent
    have hmem : turns.get ⟨i, hturn⟩ ∈ turns := List.get_mem _ _
    exact heardFrom_iff (Json.isDistinct_of_mem hturnsDistinct hmem)
      (Reading.noSingle_of_mem hturnsSingle hmem) (hmessages.get hturn hm) vision hrole hfrom
      hcontent
  · intro name hname
    have hfield : name ∉ Request.fieldNames := by
      intro hmem
      have hall : ∀ name ∈ Request.fieldNames, name ∈ Chat.Request.fieldNames := by decide
      exact hname (hall name hmem)
    rw [hapart.get?_extra hfield]
    show (r.extra.lookup name).map Json.canonical = (members.lookup name).map Json.canonical
    rw [hextra name, if_neg hname, Option.map_map]
    exact congrArg (fun f => (members.lookup name).map f) (funext Json.canonical_canonical)
  · intro blocks hblocks hinstructions
    have hblocks : members.lookup "system" = some (.array blocks) := hblocks
    rw [hblocks] at hsystem
    obtain ⟨prompt, hprompt, hr⟩ := hsystem
    rw [Chat.SystemPrompt.blocks_of_decoder_ok (Reading.noSingle_of_lookup hsingle hblocks) hprompt]
      at hr
    exact system_ofChat hapart hmessages hr hinstructions

set_option maxRecDepth 4000 in
/-- A document keeps the mark on the text beside it. -/
theorem document_keeps_mark :
    let mark : Json := .object [("type", .string "ephemeral")]
    let marked : Json :=
      .object [("type", .string "text"), ("text", .string "hi"), ("cache_control", mark)]
    let document : Json := .object [("type", .string "document"), ("title", .string "notes")]
    let turn : Json := .object [("role", .string "user"), ("content", .array [marked, document])]
    let sent : Json := .object [("model", .string "claude-2.1"), ("system", .array [marked]),
      ("messages", .array [turn]), ("thinking", .object [("budget_tokens", .ofNat 1024)])]
    let r : Chat.Request :=
      { model := "claude-2.1"
        system := some (.blocks [marked.canonical])
        messages := [⟨.user, .blocks [marked.canonical, document.canonical], none, []⟩]
        extra := [("thinking", .object [("budget_tokens", .ofNat 1024)])] }
    let body := (Request.ofChat r false .messages).toJson.canonical
    sent.isDistinct = true ∧
      saidInBody body = [("user", marked.canonical), ("user", document.canonical)] ∧
      body.get? "system" = some (.array [marked.canonical]) ∧
      body.get? "thinking" = some (.object [("budget_tokens", .ofNat 1024)]) := by
  intro mark marked document turn sent r body
  let text :=
    ("\x7b\"model\":\"claude-2.1\",\"system\":[\x7b\"type\":\"text\",\"text\":\"hi\"," ++
      "\"cache_control\":\x7b\"type\":\"ephemeral\"\x7d\x7d]," ++
      "\"messages\":[\x7b\"role\":\"user\",\"content\":[\x7b\"type\":\"text\",\"text\":\"hi\"," ++
      "\"cache_control\":\x7b\"type\":\"ephemeral\"\x7d\x7d," ++
      "\x7b\"type\":\"document\",\"title\":\"notes\"\x7d]\x7d]," ++
      "\"thinking\":\x7b\"budget_tokens\":1024\x7d\x7d").toUTF8.data.toList
  have hspelled : sent.SpelledBy text := rfl
  have haccepted : Chat.Request.ofBytes text = .ok r := by
    rw [Chat.Request.ofBytes, hspelled.ofBytes]
    rfl
  have hdistinct : sent.isDistinct = true := rfl
  obtain ⟨turns, hturns, hbody, hheard, hextra, hsystem⟩ :=
    ofChat_keeps_native sent _ _ false hspelled hdistinct haccepted
  have hturns : [turn] = turns := Json.array.inj (Option.some.inj hturns)
  subst hturns
  -- The document is no part, and its turn stays whole by that alone.
  have hdocument : document ∈ [marked, document] :=
    List.mem_cons_of_mem _ (List.mem_singleton_self _)
  have htype : document.get? "type" = some (.string "document") := rfl
  have hwhole := stayWhole_of_type hdocument rfl htype (by decide)
  cases hheard with
  | cons hturn _ =>
    have hsaid := (hturn "user" [marked, document] (Or.inl rfl) (Or.inl rfl) rfl).mpr hwhole
    refine ⟨hdistinct, ?_, ?_, ?_⟩
    · rw [hbody, List.flatMap_singleton]
      exact hsaid
    · apply hsystem [marked] rfl
      simp [IsFrom, turn, Json.get?]
    · exact hextra "thinking" (by decide)

set_option maxRecDepth 4000 in
/-- Without it the mark is lost. -/
theorem text_loses_mark :
    let mark : Json := .object [("type", .string "ephemeral")]
    let marked : Json :=
      .object [("type", .string "text"), ("text", .string "hi"), ("cache_control", mark)]
    let turn : Json := .object [("role", .string "user"), ("content", .array [marked])]
    let sent : Json := .object [("model", .string "claude-2.1"), ("messages", .array [turn])]
    let r : Chat.Request :=
      { model := "claude-2.1", messages := [⟨.user, .parts [.text "hi"], none, []⟩] }
    let text :=
      ("\x7b\"model\":\"claude-2.1\",\"messages\":[\x7b\"role\":\"user\",\"content\":[" ++
        "\x7b\"type\":\"text\",\"text\":\"hi\"," ++
        "\"cache_control\":\x7b\"type\":\"ephemeral\"\x7d\x7d]\x7d]\x7d").toUTF8.data.toList
    let body := (Request.ofChat r false .messages).toJson.canonical
    sent.SpelledBy text ∧ sent.isDistinct = true ∧ Chat.Request.ofBytes text = .ok r ∧
      saidInBody body
        = [("user", .object [("text", .string "hi"), ("type", .string "text")])] ∧
      saidInBody body ≠ [("user", marked.canonical)] := by
  intro mark marked turn sent r text body
  have hbody : saidInBody body
      = [("user", .object [("text", .string "hi"), ("type", .string "text")])] := rfl
  have hspelled : sent.SpelledBy text := rfl
  have haccepted : Chat.Request.ofBytes text = .ok r := by
    rw [Chat.Request.ofBytes, hspelled.ofBytes]
    rfl
  refine ⟨hspelled, rfl, haccepted, hbody, ?_⟩
  -- What was sent has three members and what arrives has two.
  have hmarked : marked.canonical
      = .object [("cache_control", mark), ("text", .string "hi"), ("type", .string "text")] := rfl
  rw [hbody, hmarked]
  simp

end ModelRelay.Claude
