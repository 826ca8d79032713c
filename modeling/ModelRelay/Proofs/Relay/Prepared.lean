import ModelRelay.Proofs.Chat.Settling
import ModelRelay.Proofs.Provider.Posts
import ModelRelay.Proofs.Relay.Reply

/-!
# Calls are consistent

The model of a call, whether it is to be streamed, and whose key it carries each go through several
copies: the request as it is settled, the request with the provider's name of its model, the route,
the body, the URL, the headers and the time limit. **They agree**, for every caller, every body and
every channel (`calls_are_consistent`). What does not survive is the last digit of a number: where a
dated model is put into a body, the body is read anew.

A call goes out for a request that was admitted, so the way it went (`Relayed`) gives its parts
(`Posts.parts`). That the body and the URL address one model is a matter of the adaptor and is shown
for each family in `Provider.Posts`; here the parts are tied to the request and to what its caller
gets. Whether the answer is a stream depends on the provider too, so it is said of calls that the
provider takes.

That a body can be read anew at all needs a bound on how deeply it is nested. The reader has such a
bound, and what it has read is within it (`StoredBody.isWritable_of_settle`).

`dated_call_changes_temperature` shows what reading anew does to a number.
-/

set_option autoImplicit false

namespace ModelRelay

open Json

/-- A request that was read can be written, and one for a reasoning model is not to be streamed. -/
theorem StoredBody.isWritable_of_settle {body : StoredBody} {request : Chat.Request}
    {replaced : Option StoredBody} (h : body.settle = .ok (request, replaced)) :
    request.IsWritable (Draft.depth - 1) ∧
      (Chat.isReasoningModel request.model = true → request.stream = false) := by
  obtain ⟨r, hread, h⟩ := exists_of_bind_ok h
  obtain rfl : r.settle.1 = request := (Prod.mk.inj (Except.ok.inj h)).1
  obtain ⟨j, hj, hdecoded⟩ := Chat.Request.exists_spelledBy hread
  have hwritable : r.IsWritable (Draft.depth - 1) :=
    Chat.Request.isWritable_of_decoder_ok hj.noSingle hj.fits (by decide) hdecoded
  rw [Chat.Request.settle]
  split_ifs with hmodel
  · exact ⟨hwritable.forReasoning, fun _ => rfl⟩
  · exact ⟨hwritable, fun h => absurd h hmodel⟩

/-- Of the headers of a call the one that says what is accepted is found by its name, whatever a
family adds to them. -/
theorem Http.Headers.accept_ofTexts (stream : Bool) (others : List (String × String)) :
    (ofTexts ([("content-type", "application/json"), ("accept", Adaptor.accepted stream)] ++
      others)).text? "accept" = some (Adaptor.accepted stream) := by
  have hget : (ofTexts ([("content-type", "application/json"),
      ("accept", Adaptor.accepted stream)] ++ others)).get? "accept"
        = some (Adaptor.accepted stream).toUTF8.data.toList := rfl
  rw [text?, hget]
  cases stream <;> decide +kernel

namespace Dispatcher

variable {d : Dispatcher} {caller : Caller} {fresh : Fresh} {reader : Delivery.Session.Caller}
  {request : Chat.Request} {post : Post}

/-- A caller whose provider takes the call is answered with a stream if a stream was asked for, and
only then. -/
theorem Relayed.streams_iff {effects : List Effect} {reply : Except RelayError Reply}
    (h : Relayed d caller request fresh reader effects reply) (hpost : .post post ∈ effects)
    {answer : Provider.Answer} (hsent : d.send post = .answered answer)
    (hsuccess : answer.isSuccess = true) :
    (∃ frames, reply = .ok (.stream frames)) ↔ request.stream = true := by
  -- A provider who takes the call leaves three ways, and one of them is a stream.
  cases h with
  | invalid | unresolved | denied | unprepared => simp [admission] at hpost
  | unanswered _ unanswered =>
    obtain rfl : post = _ := by simpa [admission] using hpost
    exact absurd unanswered (by simp [hsent, Exchange.answer])
  | rejected _ sent _ rejected =>
    obtain rfl : post = _ := by simpa [admission] using hpost
    obtain rfl := Exchange.answered.inj (hsent.symm.trans sent)
    exact absurd rejected (by simp [Provider.Answer.ensureSuccess, hsuccess])
  | waiting _ sent _ endless =>
    obtain rfl : post = _ := by simpa [admission] using hpost
    obtain rfl := Exchange.answered.inj (hsent.symm.trans sent)
    exact absurd endless (by simp [Provider.Answer.ensureSuccess, hsuccess])
  | misunderstood _ _ whole => simp [whole]
  | whole _ _ whole => simp [whole]
  | streamed _ _ stream => simp [stream]

/-- **A call is consistent.** It addresses the channel's name of the model that was asked for, and
no other; where a dated model takes the place of that name, every other member is what is read back
of its text. The body asks for a stream, the headers ask for one, the call has no time limit, and
the caller is answered with a stream if the provider takes the call: all of these or none, and none
for a reasoning model. The key is the channel's, and of the caller's headers only a version is
passed on.

All copies of the model and of the wish for a stream are made from one request, after it was
settled. The URL and the body of each family take the model from the route, which has it from the
channel. -/
theorem calls_are_consistent (d : Dispatcher) (caller : Caller) (body : StoredBody) (fresh : Fresh)
    (reader : Delivery.Session.Caller) {request : Chat.Request} {replaced : Option StoredBody}
    {post : Post} (settled : body.settle = .ok (request, replaced))
    (posted : .post post ∈ (d.relay caller body fresh reader).effects) :
    ∃ channel members, d.services.resolve request.model caller = .ok channel ∧
      post.body = (Json.object members).print ∧ (members.map Prod.fst).Nodup ∧
      Adaptor.Addresses d.regions channel (channel.actualModel request.model)
        (Adaptor.plainBody channel.family caller.protocol
          { request with model := channel.actualModel request.model })
        post.url members channel.family ∧
      ((members.lookup "stream" = some (.bool true) ↔ request.stream = true) ∧
        (post.headers.text? "accept" = some "text/event-stream" ↔ request.stream = true) ∧
        (post.timeout = none ↔ request.stream = true) ∧
        (∀ answer, d.send post = .answered answer → answer.isSuccess = true →
          ((∃ frames, (d.relay caller body fresh reader).reply = .ok (.stream frames))
            ↔ request.stream = true)) ∧
        (Chat.isReasoningModel request.model = true → request.stream = false)) ∧
      post.headers = .ofTexts
        ([("content-type", "application/json"), ("accept", Adaptor.accepted request.stream)] ++
          Adaptor.familyHeaders channel.family caller.headers channel.apiKey) := by
  have hrelayed : Relayed d caller request fresh reader _ _ := relayed_of_settle settled
  obtain ⟨channel, hposts⟩ := hrelayed.posts_of_mem posted
  obtain ⟨hwritable, hreasoning⟩ := StoredBody.isWritable_of_settle settled
  obtain ⟨plain, hplain, hurl, hheaders, htext, htimeout⟩ := hposts.parts
  -- The model of a request has no part in whether it can be written.
  have hrenamed : { request with model := channel.actualModel request.model }.IsWritable
      (Draft.depth - 1) :=
    ⟨hwritable.messages, hwritable.system, hwritable.singles, hwritable.extra⟩
  -- The adaptor's part, for whichever family the channel is of.
  obtain ⟨members, hbody, hsorted, haddresses, hstream⟩ :=
    Adaptor.addresses_of_ok rfl hrenamed rfl hplain hurl htext
  replace hheaders : post.headers = .ofTexts
      ([("content-type", "application/json"), ("accept", Adaptor.accepted request.stream)] ++
        Adaptor.familyHeaders channel.family caller.headers channel.apiKey) :=
    Adaptor.headers_of_ok rfl hheaders
  refine ⟨channel, members, hposts.admits.resolved, hbody, hsorted.nodup, haddresses,
    ⟨hstream, ?_, ?_, fun answer => hrelayed.streams_iff posted, hreasoning⟩, hheaders⟩
  · rw [hheaders, Http.Headers.accept_ofTexts]
    cases request.stream <;> simp [Adaptor.accepted]
  · rw [htimeout]
    cases request.stream <;> simp

/-- A caller who asks for a stream and brings a key and a version of its own. -/
theorem streamed_call_is_consistent :
    let d := withExchange .anthropic (.answered { body := "".toUTF8 })
    let caller : Caller :=
      { id := "tests", protocol := .messages
        headers := [("x-api-key", "own".toUTF8.data.toList),
          ("anthropic-version", "2024-01-01".toUTF8.data.toList)] }
    let body := StoredBody.ofText
      "\x7b\"model\": \"small\", \"messages\": [\x7b\"role\": \"user\"\x7d], \"stream\": true\x7d"
    ∃ post members, .post post ∈ (d.relay caller body ⟨"1", 0, 0⟩ {}).effects ∧
      post.url = "http://host/v1/messages" ∧ post.body = (Json.object members).print ∧
      members.lookup "model" = some (.string "small") ∧
      members.lookup "stream" = some (.bool true) ∧ post.timeout = none ∧
      (∃ frames, (d.relay caller body ⟨"1", 0, 0⟩ {}).reply = .ok (.stream frames)) ∧
      post.headers = .ofTexts
        [("content-type", "application/json"), ("accept", "text/event-stream"),
         ("x-api-key", "key"), ("anthropic-version", "2024-01-01"),
         ("anthropic-beta", "messages-2023-12-15")] := by
  intro d caller body
  have hposted : ((d.relay caller body ⟨"1", 0, 0⟩ {}).effects.findSome? Effect.post?).isSome
      = true := by
    decide +kernel
  have hasked : body.settle.toOption.map (fun settled => (settled.1.model, settled.1.stream))
      = some ("small", true) := by
    decide +kernel
  have hversion : Adaptor.familyHeaders .anthropic caller.headers "key"
      = [("x-api-key", "key"), ("anthropic-version", "2024-01-01"),
         ("anthropic-beta", "messages-2023-12-15")] := by
    decide +kernel
  obtain ⟨post, hpost⟩ := Option.isSome_iff_exists.mp hposted
  replace hpost : .post post ∈ (d.relay caller body ⟨"1", 0, 0⟩ {}).effects := mem_of_post? hpost
  obtain ⟨⟨request, replaced⟩, hsettled, hasked⟩ := Option.map_eq_some_iff.mp hasked
  obtain ⟨hmodel, hstream⟩ := Prod.mk.inj hasked
  dsimp only at hmodel hstream
  -- All that is said of the call comes of the theorem. What was computed is that a call goes out,
  -- and for which request.
  obtain ⟨channel, members, hresolved, hbody, -, haddresses, ⟨hasks, -, htimeout, hreply, -⟩,
    hheaders⟩ := calls_are_consistent d caller body ⟨"1", 0, 0⟩ {} (ok_of_toOption hsettled) hpost
  rw [hmodel] at hresolved haddresses
  obtain rfl := Except.ok.inj hresolved
  refine ⟨post, members, hpost, ?_⟩
  replace haddresses : Adaptor.Addresses d.regions _ "small" _ post.url members .anthropic :=
    haddresses
  cases haddresses with
  | messages endpoint _ named _ =>
    refine ⟨endpoint, hbody, named, hasks.mpr hstream, htimeout.mpr hstream,
      (hreply _ rfl rfl).mpr hstream, ?_⟩
    rw [hheaders, hstream]
    exact congrArg _ (congrArg _ hversion)
  | dated _ stands _ _ =>
    have hown : Claude.pinnedModel? "small" = none := by decide
    exact absurd (hown.symm.trans stands) (by simp)

/-- A temperature that goes out for a dated model can be another than the one that was converted:
the last digits of a double are lost where its text is read anew. -/
theorem dated_call_changes_temperature :
    let d := withExchange .anthropic (.failed "refused") "claude-3-opus"
    let caller : Caller := { id := "tests", protocol := .completions }
    let body := StoredBody.ofText ("\x7b\"model\": \"claude-3-opus\", " ++
      "\"messages\": [\x7b\"role\": \"user\"\x7d], \"temperature\": 0.013\x7d")
    let text (model temperature : String) : String :=
      "\x7b\"max_tokens\":4096,\"messages\":[],\"model\":\"" ++ model ++
        "\",\"temperature\":" ++ temperature ++ "\x7d"
    body.settle.toOption.map
        (fun settled => (Adaptor.plainBody .anthropic .completions settled.1).print)
      = some (text "claude-3-opus" "0.013000000268220901") ∧
    ((d.relay caller body ⟨"1", 0, 0⟩ {}).effects.findSome? Effect.post?).map (·.body)
      = some (text "claude-3-opus-20240229" "0.0130000002682209") := by
  intro d caller body text
  exact ⟨by decide +kernel, by decide +kernel⟩

end Dispatcher

end ModelRelay
