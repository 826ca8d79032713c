import ModelRelay.Proofs.Chat.RoundTrip
import ModelRelay.Proofs.Claude.Writing
import ModelRelay.Relay.Call

/-!
# Calls as they go out

The model of a call is in its body or in its URL, and what a caller may put into either does not
reach it there (`Addresses`). Three things are made of a request one after the other: the body of
its family, the model that goes into it or out of it, and, for a name without a date, the same text
once more with the dated model. **The last step reads the text anew**, so it keeps a member exactly
if the numbers in it are read back from their text (`lookup_withModel`).

`Addresses` has one case for each way in which a call names its model: twice in the body under the
name that was asked for, once in the body under another name, and once in the URL. It is stated of
the URL, the members that are sent and the body before it was fitted to its endpoint, so that each
case says what became of every other member too.

What goes out beside the body and the URL are the headers and the server. The headers are those of
every call and a few that the family adds (`lookup_familyHeaders`). The server is the channel's own,
or one that a region is put in front of (`serverOf_spec`).
-/

set_option autoImplicit false

namespace ModelRelay

open Json

/-! ## Headers

Headers are set one after the other. As no name comes twice, none replaces another, and setting all
is listing all. -/

namespace Http.Headers

/-- Headers whose values are texts. -/
def ofTexts (pairs : List (String × String)) : Headers :=
  pairs.map fun (name, value) => (name, value.toUTF8.data.toList)

theorem valueOf_ok {name value : String} {bytes : List UInt8} (h : valueOf name value = .ok bytes) :
    bytes = value.toUTF8.data.toList := by
  rw [valueOf] at h
  split at h
  · exact absurd h (by simp)
  · exact (Except.ok.inj h).symm

theorem set_of_notMem {headers : Headers} {name : String} (h : name ∉ headers.map Prod.fst)
    (value : List UInt8) : headers.set name value = headers ++ [(name, value)] := by
  rw [set, eraseMember_of_notMem h]

/-- Headers of different names are all set, in their order. -/
theorem setAll_ok {pairs : List (String × String)} {headers : Headers}
    (hnodup : (headers.map Prod.fst ++ pairs.map Prod.fst).Nodup)
    (h : (setAll pairs headers).2 = .ok ()) :
    (setAll pairs headers).1 = headers ++ ofTexts pairs := by
  induction pairs generalizing headers with
  | nil => exact (List.append_nil headers).symm
  | cons pair rest ih =>
    obtain ⟨name, value⟩ := pair
    rw [setAll] at h ⊢
    cases hvalue : valueOf name value with
    | error e =>
      rw [hvalue] at h
      exact absurd h (by simp)
    | ok bytes =>
      rw [hvalue] at h
      dsimp only at h ⊢
      -- A name that is not there yet goes to the end.
      have hname : name ∉ headers.map Prod.fst := fun hmem =>
        (List.nodup_append.mp hnodup).2.2 name hmem name List.mem_cons_self rfl
      rw [set_of_notMem hname] at h ⊢
      rw [ih (by simpa using hnodup) h, valueOf_ok hvalue, List.append_assoc]
      rfl

end Http.Headers

/-- **Which headers go out with a call beside those of every call**: the key of the channel, under
one name, and for one family what it asks for of its protocol. Whatever the caller sent, nothing of
it is among them but the version that it names. -/
theorem Adaptor.lookup_familyHeaders (family : Family) (inbound : Http.Headers)
    (key name : String) :
    (familyHeaders family inbound key).lookup name =
      if family = .anthropic then
        if name = "x-api-key" then some key
        else if name = "anthropic-version" then
          some ((inbound.nonempty? "anthropic-version").getD "2023-06-01")
        else if name = "anthropic-beta" then some "messages-2023-12-15" else none
      else if name = "authorization" then some ("Bearer " ++ key) else none := by
  cases family with
  | openai | vertexClaude =>
    simp only [familyHeaders, lookup_cons_eq]
    simp
  | anthropic =>
    simp only [familyHeaders, lookup_cons_eq]
    simp [defaultVersion]

/-! ## Hosts

A channel with regions is given a host. Whether the region shows in the server depends on whether
the host has a scheme. -/

namespace Vertex

theorem occurs_iff {part s : List Char} : occurs part s = true ↔ part <:+: s := by
  induction s with
  | nil => rw [occurs, List.isEmpty_iff, List.infix_nil]
  | cons c rest ih =>
    rw [occurs, Bool.or_eq_true, List.isPrefixOf_iff_prefix, ih, List.infix_cons_iff]

theorem hasScheme_iff {host : String} :
    hasScheme host = true ↔ "://".toList <:+: host.toList :=
  occurs_iff

/-- **Which server a host and a region make.** A host with a scheme is the server for every region.
A bare host is asked in the region, which stands in front of it, and so two regions are two
servers. -/
theorem serverOf_spec (host : String) :
    ("://".toList <:+: host.toList → ∀ region, serverOf host region = host) ∧
      (¬ "://".toList <:+: host.toList →
        (∀ region, serverOf host region = "https://" ++ region ++ "-" ++ host) ∧
          Function.Injective (serverOf host)) := by
  rw [← hasScheme_iff]
  refine ⟨fun hscheme region => if_pos hscheme, fun hbare => ?_⟩
  have hserver : ∀ region, serverOf host region = "https://" ++ region ++ "-" ++ host :=
    fun region => if_neg hbare
  refine ⟨hserver, fun first second hsame => ?_⟩
  rw [hserver, hserver] at hsame
  simpa [String.append_assoc] using hsame

end Vertex

/-! ## Bodies

The body that each family is sent, and what is found in it under the two names that a call turns on:
the model and whether it is streamed. -/

namespace OpenAi

variable {room : ℕ} {r : Chat.Request}

/-- The members of a body in their order. -/
def members (r : Chat.Request) : List (String × Option Json) :=
  let members := setMember "messages" (some (.array (turns r)))
    { r with system := none, stopSequences := none, stop := r.stopList }.members
  if r.stream then
    setMember "stream_options" (some (.object [("include_usage", .bool true)])) members
  else members

theorem convert_eq (r : Chat.Request) : convert r = (ofMembers (members r)).canonical := rfl

theorem nodup_members (h : r.IsWritable room) : ((members r).map Prod.fst).Nodup := by
  have hnodup : (({ r with system := none, stopSequences := none, stop := r.stopList } :
      Chat.Request).members.map Prod.fst).Nodup := by
    rw [Chat.Request.names_members]
    exact h.extra.nodup (by decide)
  rw [members]
  split
  · exact nodup_setMember (nodup_setMember hnodup _ _) _ _
  · exact nodup_setMember hnodup _ _

theorem get?_convert (h : r.IsWritable room) {name : String} (hturns : name ≠ "messages")
    (hoptions : name ≠ "stream_options") :
    (convert r).get? name = (({ r with system := none, stopSequences := none, stop := r.stopList } :
      Chat.Request).members.lookup name).join.map canonical := by
  rw [convert_eq, get?_canonical_ofMembers (nodup_members h), members]
  split
  · rw [lookup_setMember, if_neg hoptions, lookup_setMember, if_neg hturns]
  · rw [lookup_setMember, if_neg hturns]

theorem get?_convert_model (h : r.IsWritable room) :
    (convert r).get? "model" = some (.string r.model) := by
  rw [get?_convert h (by decide) (by decide)]
  rfl

theorem get?_convert_stream (h : r.IsWritable room) :
    (convert r).get? "stream" = some (.bool r.stream) := by
  rw [get?_convert h (by decide) (by decide)]
  rfl

end OpenAi

namespace Claude.Request

variable {r : Request}

theorem ExtraIsApart.get?_model (h : r.ExtraIsApart) :
    r.toJson.canonical.get? "model" = some (.string r.model) := by
  rw [h.get?_body]
  rfl

/-- A body of the Messages protocol says that it is streamed, or nothing. -/
theorem ExtraIsApart.get?_stream (h : r.ExtraIsApart) :
    r.toJson.canonical.get? "stream" = if r.stream then some (.bool true) else none := by
  have hstream : r.fieldMembers.lookup "stream"
      = some (if r.stream then some (.bool true) else none) := rfl
  rw [h.get?_body, hstream]
  cases r.stream <;> rfl

end Claude.Request

namespace Adaptor

/-- The body of a request for a family, before it is fitted to its endpoint. -/
def plainBody (family : Family) (protocol : Protocol) (request : Chat.Request) : Json :=
  match family with
  | .openai => OpenAi.convert request
  | .anthropic | .vertexClaude =>
    (Claude.Request.ofChat request (Claude.isVisionModel request.model) protocol).toJson.canonical

/-- A body is an object of different names, in order. -/
theorem exists_plainBody (family : Family) (protocol : Protocol) (request : Chat.Request) :
    ∃ members, plainBody family protocol request = .object members ∧ Sorted members := by
  cases family with
  | openai | anthropic | vertexClaude => exact ⟨_, rfl, sorted_sortMembers _⟩

theorem forEndpoint_object (members : List (String × Json)) :
    forEndpoint (.object members) = .object (insertSorted "anthropic_version"
      (.string Vertex.protocolVersion) (eraseMember "model" members)) := rfl

variable {room : ℕ}

/-- **A text whose model is replaced keeps what is read back of every other member.** -/
theorem lookup_withModel {members : List (String × Json)} {model text : String}
    (hfits : (Json.object members).Fits Draft.depth)
    (hcanonical : (Json.object members).canonical = .object members)
    (h : withModel model (Json.object members).print = .ok text) :
    ∃ written, text = (Json.object written).print ∧ Sorted written ∧
      written.lookup "model" = some (.string model) ∧
      ∀ name, name ≠ "model" → written.lookup name = (members.lookup name).map reread := by
  have hread : Decoder.ofText Decoder.json (Json.object members).print
      = .ok (.object (rereadMembers members)) := by
    have hspelled : Decoder.ofText Decoder.json (Json.object members).print
        = Decoder.json (.ofJson (Json.object members).reread) :=
      (spelledBy_print hfits).ofBytes Decoder.json
    rw [hspelled, Decoder.json, Reading.toJson?_ofJson _ (noSingle_reread hfits),
      canonical_reread hfits hcanonical]
    rfl
  rw [withModel, hread] at h
  have hsorted := (sorted_of_canonical hcanonical).rereadMembers
  refine ⟨_, (Except.ok.inj h).symm, hsorted.insertSorted _ _, ?_, fun name hname => ?_⟩
  · rw [lookup_insertSorted, if_pos rfl]
  · rw [lookup_insertSorted, if_neg hname, rereadMembers_eq_map, lookup_map_values]

/-! ## Where a call goes

Each case has the URL, the name of the model where it stands, and what became of the other members.
-/

/-- How the URL of a call and the members of its body address a model. `plain` is the body before it
is fitted to its endpoint. -/
inductive Addresses (regions : Vertex.Regions) (channel : Channel) (model : String) (plain : Json)
    (url : String) (members : List (String × Json)) : Family → Prop where
  | completions
      (endpoint : url = dropTrailingSlashes channel.baseUrl ++ "/v1/chat/completions")
      (named : members.lookup "model" = some (.string model))
      (whole : plain = .object members) :
      Addresses regions channel model plain url members .openai
  /-- The name of the model is the provider's own. -/
  | messages
      (endpoint : url = dropTrailingSlashes channel.baseUrl ++ "/v1/messages")
      (own : Claude.pinnedModel? model = none)
      (named : members.lookup "model" = some (.string model))
      (whole : plain = .object members) :
      Addresses regions channel model plain url members .anthropic
  /-- The name stands for a dated model. Every other member is what is read back of it. -/
  | dated {pinned : String}
      (endpoint : url = dropTrailingSlashes channel.baseUrl ++ "/v1/messages")
      (stands : Claude.pinnedModel? model = some pinned)
      (named : members.lookup "model" = some (.string pinned))
      (others : ∀ name, name ≠ "model" → members.lookup name = (plain.get? name).map reread ∧
        (members.lookup name = plain.get? name ↔
          ∀ value, plain.get? name = some value → ∀ n ∈ value.numbers, n.ComesBack)) :
      Addresses regions channel model plain url members .anthropic
  /-- The URL names the model, and the one region of it that the call goes to. -/
  | deployed {host region project id : String}
      (server : host = if dropTrailingSlashes channel.baseUrl = "" then Vertex.defaultHost
        else dropTrailingSlashes channel.baseUrl)
      (served : region ∈ regions.of model)
      (identified : Vertex.modelId model = .ok id)
      (billed : channel.project = some project)
      (endpoint : url = Vertex.serverOf host region ++ "/v1/projects/" ++ project ++
        "/locations/" ++ region ++ "/publishers/anthropic/models/" ++ id ++ ":streamRawPredict")
      (unnamed : members.lookup "model" = none)
      (versioned : members.lookup "anthropic_version" = some (.string Vertex.protocolVersion))
      (others : ∀ name, name ≠ "model" → name ≠ "anthropic_version" →
        members.lookup name = plain.get? name) :
      Addresses regions channel model plain url members .vertexClaude

/-- A URL with a region has been made of a region of the model, its id and the project that pays. -/
theorem deployed_of_url {regions : Vertex.Regions} {choice : Nat} {route : Route} {url : String}
    (h : Vertex.url regions choice route = .ok url) :
    ∃ region id project, region ∈ regions.of route.actualModel ∧
      Vertex.modelId route.actualModel = .ok id ∧ route.channel.project = some project ∧
      url = Vertex.serverOf (if route.baseUrl = "" then Vertex.defaultHost else route.baseUrl)
        region ++ "/v1/projects/" ++ project ++ "/locations/" ++ region ++
          "/publishers/anthropic/models/" ++ id ++ ":streamRawPredict" := by
  obtain ⟨region, hregion, h⟩ := exists_of_bind_ok h
  obtain ⟨id, hid, h⟩ := exists_of_bind_ok h
  have hserved : region ∈ regions.of route.actualModel := by
    rw [Vertex.Regions.pick] at hregion
    split at hregion
    · rename_i found hfound
      exact Except.ok.inj hregion ▸ List.mem_of_getElem? hfound
    · exact absurd hregion (by simp)
  cases hproject : route.channel.project.filter (!·.isEmpty) with
  | none =>
    rw [hproject] at h
    exact absurd h (by simp [throw, throwThe, MonadExceptOf.throw])
  | some project =>
    rw [hproject] at h
    refine ⟨region, id, project, hserved, hid, (Option.filter_eq_some_iff.mp hproject).1, ?_⟩
    rw [← Except.ok.inj h]
    simp only [String.isEmpty_iff]

/-! ## From a request to a call

The three steps that make a call, each of which may fail; where none does, the call addresses its
model. -/

section Calls

variable {a : Adaptor} {route : Route} {request : Chat.Request} {url text : String}
  {plain : List (String × Json)}

theorem ensureReady_of_ready (hready : a.ready = true) : a.ensureReady = .ok () :=
  if_pos hready

theorem body_of_ready (hready : a.ready = true) (protocol : Protocol) (request : Chat.Request) :
    a.body protocol (some request) = .ok (if a.family = .vertexClaude
      then forEndpoint (plainBody a.family protocol request)
      else plainBody a.family protocol request) := by
  rw [body, ensureReady_of_ready hready]
  cases hfamily : a.family <;> rfl

/-- Only one family has names that stand for dated models. -/
theorem pinned_eq (a : Adaptor) (route : Route) (text : String) :
    a.pinned route text = if a.family = .anthropic
      then (Claude.pinnedModel? route.actualModel).elim (.ok text) fun model => withModel model text
      else .ok text := by
  rw [pinned.eq_def]
  cases hfamily : a.family with
  | openai | vertexClaude => rfl
  | anthropic => cases Claude.pinnedModel? route.actualModel <;> rfl

section Messages

variable {out : Claude.Request} (hapart : out.ExtraIsApart)
  (hplain : out.toJson.canonical = .object plain)

include hapart hplain

theorem lookup_model_of_apart : plain.lookup "model" = some (.string out.model) := by
  have hmodel := hapart.get?_model
  rwa [hplain] at hmodel

theorem lookup_stream_of_apart :
    plain.lookup "stream" = if out.stream then some (.bool true) else none := by
  have hstream := hapart.get?_stream
  rwa [hplain] at hstream

/-- A call in the Messages protocol names its model in the body, as it was asked for or with its
date. -/
theorem addresses_messages (regions : Vertex.Regions) (hmodel : out.model = route.actualModel)
    (hfits : out.toJson.Fits Draft.depth) (hurl : url = route.baseUrl ++ "/v1/messages")
    (htext : (Claude.pinnedModel? route.actualModel).elim (.ok (Json.object plain).print)
      (fun model => withModel model (Json.object plain).print) = .ok text) :
    ∃ members, text = (Json.object members).print ∧ Sorted members ∧
      Addresses regions route.channel route.actualModel (.object plain) url members .anthropic ∧
      members.lookup "stream" = if out.stream then some (.bool true) else none := by
  have hnamed := hmodel ▸ lookup_model_of_apart hapart hplain
  have hstream := lookup_stream_of_apart hapart hplain
  cases hpinned : Claude.pinnedModel? route.actualModel with
  | none =>
    rw [hpinned] at htext
    exact ⟨plain, (Except.ok.inj htext).symm, sorted_of_canonical hplain,
      .messages hurl hpinned hnamed rfl, hstream⟩
  | some dated =>
    rw [hpinned] at htext
    have hcanonical : (Json.object plain).canonical = .object plain := by
      rw [← hplain, canonical_canonical]
    have hsingle : (Reading.ofJson (.object plain)).noSingle = true :=
      hcanonical ▸ noSingle_canonical _
    obtain ⟨members, htext, hsorted, hmember, hothers⟩ :=
      lookup_withModel (hplain ▸ hfits.canonical) hcanonical htext
    refine ⟨members, htext, hsorted, .dated hurl hpinned hmember fun name hname => ?_, ?_⟩
    · -- A member is left alone if it is read back from its text, which is up to its numbers.
      refine ⟨hothers name hname, ?_⟩
      rw [hothers name hname, get?]
      cases hvalue : plain.lookup name with
      | none => simp
      | some value =>
        have hback := reread_eq_self_iff (Reading.noSingle_of_lookup hsingle hvalue)
        simp [hback]
    · rw [hothers "stream" (by decide), hstream]
      split <;> rfl

theorem addresses_deployed {regions : Vertex.Regions} {choice : Nat}
    (hurl : Vertex.url regions choice route = .ok url) :
    ∃ members, forEndpoint (.object plain) = .object members ∧ Sorted members ∧
      Addresses regions route.channel route.actualModel (.object plain) url members .vertexClaude ∧
      members.lookup "stream" = if out.stream then some (.bool true) else none := by
  obtain ⟨region, id, project, hserved, hid, hproject, hurl⟩ := deployed_of_url hurl
  have herased : Sorted (eraseMember "model" plain) :=
    (sorted_of_canonical hplain).sublist List.filter_sublist
  have hothers : ∀ name, name ≠ "model" → name ≠ "anthropic_version" →
      (insertSorted "anthropic_version" (.string Vertex.protocolVersion)
        (eraseMember "model" plain)).lookup name = plain.lookup name := by
    intro name hmodel hversion
    rw [lookup_insertSorted, if_neg hversion, lookup_eraseMember, if_neg hmodel]
  refine ⟨_, forEndpoint_object plain, herased.insertSorted _ _, .deployed rfl hserved hid hproject
    hurl ?_ ?_ hothers, ?_⟩
  · rw [lookup_insertSorted, if_neg (by decide), lookup_eraseMember, if_pos rfl]
  · rw [lookup_insertSorted, if_pos rfl]
  · rw [hothers "stream" (by decide) (by decide), lookup_stream_of_apart hapart hplain]

end Messages

/-- **A call addresses the model of its route**, and asks for a stream if its request does. -/
theorem addresses_of_ok {choice : Nat} {body : Json} (hready : a.ready = true)
    (hwritable : request.IsWritable (Draft.depth - 1)) (hmodel : request.model = route.actualModel)
    (hbody : a.body route.protocol (some request) = .ok body)
    (hurl : a.url choice route = .ok url) (htext : a.pinned route body.print = .ok text) :
    ∃ members, text = (Json.object members).print ∧ Sorted members ∧
      Addresses a.regions route.channel route.actualModel
        (plainBody a.family route.protocol request) url members a.family ∧
      (members.lookup "stream" = some (.bool true) ↔ request.stream = true) := by
  obtain ⟨plain, hplain, hsorted⟩ := exists_plainBody a.family route.protocol request
  rw [body_of_ready hready, hplain] at hbody
  rw [pinned_eq] at htext
  rw [Adaptor.url, ensureReady_of_ready hready] at hurl
  rw [hplain]
  -- Each family has its own body, its own endpoint, and its own way to name the model.
  cases hfamily : a.family with
  | openai =>
    rw [hfamily] at hplain hbody hurl htext
    obtain rfl := Except.ok.inj hbody
    have hconverted : OpenAi.convert request = .object plain := hplain
    have hnamed := OpenAi.get?_convert_model hwritable
    have hstream := OpenAi.get?_convert_stream hwritable
    rw [hconverted, get?] at hnamed hstream
    refine ⟨plain, (Except.ok.inj htext).symm, hsorted,
      .completions (Except.ok.inj hurl).symm (hmodel ▸ hnamed) rfl, ?_⟩
    rw [hstream]
    simp
  | anthropic =>
    rw [hfamily] at hplain hbody hurl htext
    obtain rfl := Except.ok.inj hbody
    obtain ⟨members, htext, hsorted, haddresses, hstream⟩ :=
      addresses_messages (Claude.extraIsApart_of_isWritable hwritable _ _) hplain a.regions hmodel
        (Claude.fits_ofChat hwritable (by decide) _ _) (Except.ok.inj hurl).symm htext
    refine ⟨members, htext, hsorted, haddresses, ?_⟩
    rw [hstream]
    exact by simp [Claude.Request.ofChat]
  | vertexClaude =>
    rw [hfamily] at hplain hbody hurl htext
    obtain rfl := Except.ok.inj hbody
    obtain ⟨members, hmembers, hsorted, haddresses, hstream⟩ :=
      addresses_deployed (Claude.extraIsApart_of_isWritable hwritable _ _) hplain hurl
    refine ⟨members, ?_, hsorted, haddresses, ?_⟩
    · rw [← hmembers]
      exact (Except.ok.inj htext).symm
    · rw [hstream]
      exact by simp [Claude.Request.ofChat]

/-- **The headers of a call** are two that every call has, and those of its family. -/
theorem headers_of_ok {inbound headers : Http.Headers} (hready : a.ready = true)
    (h : a.headers inbound route = .ok headers) :
    headers = .ofTexts ([("content-type", "application/json"), ("accept", accepted route.stream)] ++
      familyHeaders a.family inbound route.channel.apiKey) := by
  have hadded : a.addHeaders inbound route [] = Http.Headers.setAll
      ([("content-type", "application/json"), ("accept", accepted route.stream)] ++
        familyHeaders a.family inbound route.channel.apiKey) [] := by
    rw [addHeaders, ensureReady_of_ready hready]
  rw [Adaptor.headers, hadded] at h
  obtain ⟨_, hset, rfl⟩ := exists_of_map_ok h
  refine Http.Headers.setAll_ok ?_ hset
  cases a.family with
  | openai | vertexClaude =>
    show ["content-type", "accept", "authorization"].Nodup
    decide
  | anthropic =>
    show ["content-type", "accept", "x-api-key", "anthropic-version", "anthropic-beta"].Nodup
    decide

end Calls

end Adaptor

end ModelRelay
