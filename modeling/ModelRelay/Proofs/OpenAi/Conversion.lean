import ModelRelay.Proofs.Provider.Posts

/-!
# What a provider of chat completions is sent

A request is nearly in its provider's shape, and a body is made of it by moving three things: the
instructions go in front of the turns, the stop sequences under their usual name, and a stream asks
for its usage. **Every other member stays as the caller sent it, and there is no new one**
(`convert_keeps_members`). The exception is in what a stream asks for: it takes the place of the
caller's own options, so any of these but the usage is lost.

A body is compared with the request name by name. Both are canonical, and both list their names
once, so that what is found under a name is the member of that name or nothing. Where a name is not
one of the moved ones, the two lists of members have the same entry for it.
-/

set_option autoImplicit false

namespace ModelRelay

open Json

theorem Json.canonical_ofStrings (strings : List String) :
    (ofStrings strings).canonical = ofStrings strings := by
  rw [ofStrings, canonical_array, List.map_map]
  rfl

theorem Json.map_canonical_ofStrings (strings : Option (List String)) :
    (strings.map ofStrings).map canonical = strings.map ofStrings := by
  rw [Option.map_map]
  exact congrArg (strings.map ·) (funext canonical_ofStrings)

namespace Chat.Request

variable {r : Request} {room : ℕ}

theorem IsWritable.get?_canonical (h : r.IsWritable room) (name : String) :
    r.toJson.canonical.get? name = (r.members.lookup name).join.map canonical :=
  get?_canonical_ofMembers h.nodup name

/-- What is sent anew in a request leaves the other members where they are. -/
theorem lookup_members_moved {name : String} (hsystem : name ≠ "system") (hstop : name ≠ "stop")
    (hsequences : name ≠ "stop_sequences") :
    ({ r with system := none, stopSequences := none, stop := r.stopList } : Request).members.lookup
      name = r.members.lookup name := by
  simp only [members, List.cons_append, lookup_cons_eq, if_neg hsystem, if_neg hstop,
    if_neg hsequences]

end Chat.Request

namespace OpenAi

variable {r : Chat.Request} {room : ℕ}

/-- The names of members that are not sent as they came. -/
def movedNames : List String :=
  ["system", "stop_sequences", "messages", "stop", "stream_options"]

theorem get?_convert_of_notMem (h : r.IsWritable room) {name : String}
    (hname : name ∉ movedNames) : (convert r).get? name = r.toJson.canonical.get? name := by
  simp only [movedNames, List.mem_cons, List.not_mem_nil, or_false, not_or] at hname
  obtain ⟨hsystem, hsequences, hturns, hstop, hoptions⟩ := hname
  rw [get?_convert h hturns hoptions, h.get?_canonical,
    Chat.Request.lookup_members_moved hsystem hstop hsequences]

theorem get?_convert_turns (h : r.IsWritable room) :
    (convert r).get? "messages" = some (Json.array (turns r)).canonical := by
  rw [convert_eq, get?_canonical_ofMembers (nodup_members h), members]
  split
  · rw [lookup_setMember, if_neg (by decide), lookup_setMember, if_pos rfl]
    rfl
  · rw [lookup_setMember, if_pos rfl]
    rfl

/-- A stream asks for its usage and for nothing else; other requests keep their options. -/
theorem get?_convert_options (h : r.IsWritable room) :
    (convert r).get? "stream_options" = if r.stream
      then some (.object [("include_usage", .bool true)])
      else r.toJson.canonical.get? "stream_options" := by
  rw [convert_eq, get?_canonical_ofMembers (nodup_members h), members]
  split
  · rw [lookup_setMember, if_pos rfl]
    rfl
  · rw [lookup_setMember, if_neg (by decide), h.get?_canonical,
      Chat.Request.lookup_members_moved (by decide) (by decide) (by decide)]

theorem get?_convert_stop (h : r.IsWritable room) :
    (convert r).get? "stop" = r.stopList.map ofStrings := by
  rw [get?_convert h (by decide) (by decide)]
  exact map_canonical_ofStrings r.stopList

/-- The stop sequences are those that a provider of the Messages protocol is sent. -/
theorem get?_stopSequences (h : r.IsWritable room) (vision : Bool) (protocol : Protocol) :
    (Claude.Request.ofChat r vision protocol).toJson.canonical.get? "stop_sequences"
      = r.stopList.map ofStrings := by
  rw [(Claude.extraIsApart_of_isWritable h vision protocol).get?_body]
  exact map_canonical_ofStrings r.stopList

theorem canonical_turns (r : Chat.Request) : (Json.array (turns r)).canonical
    = .array ((r.system.map systemTurn).toList ++
        r.messages.map fun m => m.toJson.canonical) := by
  rw [canonical_array, turns, List.map_append, List.map_map]
  cases r.system <;> rfl

/-- Options of which all but one go are kept if there is no other. -/
theorem keeps_options_iff {options : List (String × Json)} {name : String} {value : Json} :
    (∀ other, other ≠ name → (Json.object [(name, value)]).get? other = options.lookup other) ↔
      ∀ other ∈ options.map Prod.fst, other = name := by
  have hnone : ∀ other, other ≠ name → (Json.object [(name, value)]).get? other = none :=
    fun other hother => lookup_eq_none (by simpa using hother)
  constructor
  · intro h other hmem
    by_contra hother
    exact notMem_of_lookup ((h other hother).symm.trans (hnone other hother)) hmem
  · intro h other hother
    rw [hnone other hother, lookup_eq_none fun hmem => hother (h other hmem)]

/-- **What becomes of a request's members**: the instructions lead the turns, the stop sequences of
either name go under one, and all others stay, with no new one beside them. The options of a stream
are replaced by the wish for its usage, and so are kept only if there were no others.

The members of a request are listed once each, and what is moved is set under its name, so a name
can be looked up in what was there before. The options of a stream are lost because they are set as
a whole. -/
theorem convert_keeps_members {body : List UInt8} {r : Chat.Request}
    (accepted : Chat.Request.ofBytes body = .ok r) :
    let said := r.toJson.canonical
    let sent := convert r
    (∃ members, sent = .object members ∧ Sorted members) ∧
      (∀ name, name ∉ movedNames → sent.get? name = said.get? name) ∧
      sent.get? "system" = none ∧ sent.get? "stop_sequences" = none ∧
      (∃ turns, said.get? "messages" = some (.array turns) ∧
        sent.get? "messages" = some (.array ((r.system.map fun prompt => Json.object
          [("content", .string prompt.joinedText), ("role", .string "system")]).toList ++ turns))) ∧
      sent.get? "stop" = r.stopList.map ofStrings ∧
      (∀ vision protocol, (Claude.Request.ofChat r vision protocol).toJson.canonical.get?
        "stop_sequences" = sent.get? "stop") ∧
      (r.stream = false → sent.get? "stream_options" = said.get? "stream_options") ∧
      (r.stream = true →
        sent.get? "stream_options" = some (.object [("include_usage", .bool true)]) ∧
          ∀ options, said.get? "stream_options" = some (.object options) →
            ((∀ name, name ≠ "include_usage" →
              (sent.get? "stream_options").bind (get? name) = options.lookup name) ↔
                ∀ name ∈ options.map Prod.fst, name = "include_usage")) := by
  obtain ⟨j, hj, hdecoded⟩ := Chat.Request.exists_spelledBy accepted
  have h : r.IsWritable (Draft.depth - 1) :=
    Chat.Request.isWritable_of_decoder_ok hj.noSingle hj.fits (by decide) hdecoded
  -- The two names that are emptied, the turns, the stop sequences of either protocol, and the
  -- options of a request that is streamed or not.
  refine ⟨⟨_, rfl, sorted_sortMembers _⟩, fun name => get?_convert_of_notMem h, ?_, ?_,
    ⟨r.messages.map fun m => m.toJson.canonical, ?_, ?_⟩, get?_convert_stop h,
    fun vision protocol => ?_, fun hstream => ?_, fun hstream => ?_⟩
  · rw [get?_convert h (by decide) (by decide)]
    rfl
  · rw [get?_convert h (by decide) (by decide)]
    rfl
  · rw [h.get?_canonical]
    show some (Json.array (r.messages.map Chat.Message.toJson)).canonical = _
    rw [canonical_array, List.map_map]
    rfl
  · rw [get?_convert_turns h, canonical_turns]
    rfl
  · rw [get?_stopSequences h, get?_convert_stop h]
  · rw [get?_convert_options h, hstream]
    rfl
  · rw [get?_convert_options h, if_pos hstream]
    exact ⟨rfl, fun options _ => keeps_options_iff⟩

set_option maxRecDepth 4000 in
/-- Instructions in two blocks, stop sequences under their other name, and a stream. -/
theorem blocks_lead_turns :
    let text := ("\x7b\"model\":\"gpt-4o\",\"system\":[\x7b\"type\":\"text\",\"text\":\"a\"\x7d," ++
      "\x7b\"type\":\"text\",\"text\":\"b\"\x7d],\"messages\":[\x7b\"role\":\"user\"\x7d]," ++
      "\"stop_sequences\":[\"END\"],\"seed\":7,\"stream\":true\x7d").toUTF8.data.toList
    ∃ r, Chat.Request.ofBytes text = .ok r ∧ (convert r).get? "seed" = some (.ofNat 7) ∧
      (convert r).get? "stop" = some (.ofStrings ["END"]) ∧
      (∃ turns, (convert r).get? "messages" = some (.array (.object
        [("content", .string "a\nb"), ("role", .string "system")] :: turns))) ∧
      (convert r).get? "stream_options" = some (.object [("include_usage", .bool true)]) := by
  intro text
  let block (s : String) : Json := .object [("type", .string "text"), ("text", .string s)]
  let sent : Json :=
    .object [("model", .string "gpt-4o"), ("system", .array [block "a", block "b"]),
      ("messages", .array [.object [("role", .string "user")]]),
      ("stop_sequences", .ofStrings ["END"]), ("seed", .ofNat 7), ("stream", .bool true)]
  have hspelled : sent.SpelledBy text := rfl
  let r : Chat.Request :=
    { model := "gpt-4o", system := some (.blocks [(block "a").canonical, (block "b").canonical])
      messages := [⟨.user, .null, none, []⟩], stopSequences := some ["END"], stream := true
      extra := [("seed", .ofNat 7)] }
  have haccepted : Chat.Request.ofBytes text = .ok r := by
    rw [Chat.Request.ofBytes, hspelled.ofBytes]
    rfl
  obtain ⟨-, hothers, -, -, ⟨turns, -, hturns⟩, hstop, -, -, hoptions⟩ :=
    convert_keeps_members haccepted
  exact ⟨r, haccepted, hothers "seed" (by decide), hstop, ⟨turns, hturns⟩, (hoptions rfl).1⟩

set_option maxRecDepth 4000 in
/-- A stream that asks for its usage asks for nothing else: another option that the caller sent is
gone. -/
theorem other_option_is_lost :
    let text := ("\x7b\"model\":\"gpt-4o\",\"messages\":[\x7b\"role\":\"user\"," ++
      "\"content\":\"hi\"\x7d],\"stream\":true,\"stream_options\":" ++
      "\x7b\"include_obfuscation\":false\x7d\x7d").toUTF8.data.toList
    ∃ r options, Chat.Request.ofBytes text = .ok r ∧ r.stream = true ∧
      r.toJson.canonical.get? "stream_options" = some (.object options) ∧
      options.lookup "include_obfuscation" = some (.bool false) ∧
      ((convert r).get? "stream_options").bind (get? "include_obfuscation") = none := by
  intro text
  let options : List (String × Json) := [("include_obfuscation", .bool false)]
  let sent : Json :=
    .object [("model", .string "gpt-4o"), ("messages", .array [.object
      [("role", .string "user"), ("content", .string "hi")]]), ("stream", .bool true),
      ("stream_options", .object options)]
  have hspelled : sent.SpelledBy text := rfl
  let r : Chat.Request :=
    { model := "gpt-4o", messages := [⟨.user, .text "hi", none, []⟩], stream := true
      extra := [("stream_options", .object options)] }
  have haccepted : Chat.Request.ofBytes text = .ok r := by
    rw [Chat.Request.ofBytes, hspelled.ofBytes]
    rfl
  exact ⟨r, options, haccepted, rfl, rfl, rfl, rfl⟩

end OpenAi

end ModelRelay
