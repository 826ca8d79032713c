import ModelRelay.Config.Loading
import ModelRelay.Config.Url
import ModelRelay.Proofs.Relay.Blame

/-!
# Keys that no header can hold

A configuration is checked before it is used, and a channel that passes can be called: it has an
endpoint of its family. What is not looked at is the text of its key. **A key with a control
character passes, and then every call of its channel is refused as if the caller's request were
invalid**; nothing else that is configured and nothing that a provider does has that effect
(`invalid_only_for_keys`).

Where such a failure can come from is known of any dispatcher (`reply_invalid_iff`): from the key,
and only for a call that has a URL. A configuration adds what having a URL comes to. Of its checks
one is needed for that, that a channel with regions has a project, and so it does not matter here
which texts are taken for URLs: the `UrlParser` is any.

The request is one that was accepted. What is wrong with a request that is not is the caller's fault
indeed, and is none of this module's business.
-/

set_option autoImplicit false

namespace ModelRelay

open Http.Headers (Allows)

/-! ## Deployments

A call with regions needs one of them, an id of its model and a project; other calls have their URL
whatever they ask for. -/

/-- A model is deployed somewhere, under an id of its own. -/
def Vertex.Deploys (regions : Vertex.Regions) (model : String) : Prop :=
  regions.of model ≠ [] ∧ ∃ id, Vertex.modelId model = .ok id

namespace Adaptor

variable {a : Adaptor} {route : Route}

theorem exists_project {project : Option String} (h : (project.getD "").isEmpty = false) :
    ∃ name, project.filter (!·.isEmpty) = some name := by
  cases project with
  | none => exact absurd h (by simp)
  | some name => exact ⟨name, Option.filter_eq_some_iff.mpr ⟨rfl, by simpa using h⟩⟩

/-- What a call needs to have a URL: nothing, or a deployment that somebody pays for. -/
theorem exists_url_iff (hready : a.ready = true) (choice : Nat)
    (hproject : a.family = .vertexClaude → (route.channel.project.getD "").isEmpty = false) :
    (∃ url, a.url choice route = .ok url) ↔
      (a.family = .vertexClaude → Vertex.Deploys a.regions route.actualModel) := by
  rw [Adaptor.url, ensureReady_of_ready hready]
  cases hfamily : a.family with
  | openai | anthropic => exact ⟨fun _ h => absurd h (by simp), fun _ => ⟨_, rfl⟩⟩
  | vertexClaude =>
    constructor
    · rintro ⟨url, hurl⟩ -
      obtain ⟨region, id, project, hserved, hid, -⟩ := deployed_of_url hurl
      exact ⟨List.ne_nil_of_mem hserved, id, hid⟩
    · intro hdeploys
      obtain ⟨hserved, id, hid⟩ := hdeploys rfl
      obtain ⟨region, -, hregion⟩ := Vertex.exists_pick choice hserved
      obtain ⟨project, hbilled⟩ := exists_project (hproject hfamily)
      exact ⟨_, Vertex.url_of_parts hregion hid hbilled⟩

end Adaptor

namespace Config

/-! ## What a check leaves

From the checks of a configuration back to the channels that were built of it. Every channel has an
entry, and every entry was checked. -/

variable {parse : UrlParser}

theorem endpoint_of_checkChannels {seen : List String} {entries : List ChannelEntry}
    (h : checkChannels parse seen entries = .ok ()) :
    ∀ e ∈ entries, e.checkEndpoint parse = .ok () := by
  induction entries generalizing seen with
  | nil => exact fun e he => absurd he List.not_mem_nil
  | cons entry rest ih =>
    rw [checkChannels] at h
    split_ifs at h
    split at h
    · exact absurd h (by simp)
    · next hentry => exact List.forall_mem_cons.mpr ⟨hentry, ih h⟩

/-- Every channel of a checked configuration has an endpoint that passes. -/
theorem endpoint_of_check {c : Config} (h : c.check parse = .ok ()) :
    ∀ e ∈ c.channels, e.checkEndpoint parse = .ok () := by
  rw [check] at h
  split at h
  · exact absurd h (by simp [throw, throwThe, MonadExceptOf.throw, bind, Except.bind])
  · obtain ⟨_, hchannels, -⟩ := exists_of_bind_ok h
    exact endpoint_of_checkChannels hchannels

/-- A configuration that is loaded has been checked. -/
theorem check_of_load {source : Source} {env : Environment} {c : Config}
    (h : Config.load parse source env = .ok c) : c.check parse = .ok () := by
  obtain ⟨plain, -, h⟩ := exists_of_bind_ok h
  obtain ⟨_, -, h⟩ := exists_of_bind_ok h
  obtain ⟨_, hchecked, h⟩ := exists_of_bind_ok h
  exact Except.ok.inj h ▸ hchecked

/-- A channel with regions that passes has a project. -/
theorem project_of_checkEndpoint {e : ChannelEntry} (h : e.checkEndpoint parse = .ok ())
    (hfamily : e.family = .vertexClaude) : (e.project.getD "").isEmpty = false := by
  rw [ChannelEntry.checkEndpoint, hfamily] at h
  dsimp only at h
  split_ifs at h with hproject <;> simpa using hproject

/-- Where a configured channel comes from. -/
theorem exists_entry_of_mem {c : Config} {env : Environment} {channels : List Channel}
    (h : c.buildChannels env = .ok channels) {channel : Channel} (hmem : channel ∈ channels) :
    ∃ e ∈ c.channels, channel.family = e.family ∧ channel.project = e.project ∧
      e.key? env = some channel.apiKey := by
  obtain ⟨e, he, hchannel⟩ := exists_of_forall₂_of_mem (mapM_ok_iff.mp h).flip hmem
  refine ⟨e, he, ?_⟩
  rw [ChannelEntry.toChannel] at hchannel
  split at hchannel
  · exact absurd hchannel (by simp)
  · next key hkey =>
    obtain rfl := Except.ok.inj hchannel
    exact ⟨rfl, rfl, hkey⟩

/-- The calls of a configured relay go through the channels that were built, and no others. -/
theorem exists_channels_of_server {c : Config} {env : Environment} {send : Post → Exchange}
    {s : Http.Server} (h : c.server env send = .ok s) :
    ∃ channels, c.buildChannels env = .ok channels ∧
      s.dispatcher = { services := .ofChannels channels, regions := c.regionsInForce,
                       settings := c.relay, send } := by
  obtain ⟨channels, hbuilt, h⟩ := exists_of_bind_ok h
  exact ⟨channels, hbuilt, (Except.ok.inj h) ▸ rfl⟩

/-! ## Failures that blame the caller

A key is put into a header when a call is made, and a header cannot hold every text. -/

/-- **The one way in which a configured relay calls an accepted request invalid**: the channel of
its model has a key that no header can hold. The model has to be deployed, if it is a provider with
regions, for a call without a URL does not come as far. What a stream comes to, once it has begun,
never blames the caller either.

The headers are the last thing that is made of a configuration before a call goes out, and the only
one whose failure is told as the caller's. All values in them but the key are fixed, or were read
from headers. -/
theorem invalid_only_for_keys (parse : UrlParser) (c : Config) (env : Environment)
    (send : Post → Exchange) {s : Http.Server} (checked : c.check parse = .ok ())
    (built : c.server env send = .ok s)
    (caller : Caller) (body : StoredBody) (fresh : Fresh) (reader : Delivery.Session.Caller)
    {request : Chat.Request} {replaced : Option StoredBody}
    (settled : body.settle = .ok (request, replaced)) (accepted : request.accept = .ok ())
    (fault : RequestFault) :
    ((s.dispatcher.relay caller body fresh reader).reply = .error (.invalid fault) ↔
      ∃ channel, s.dispatcher.services.resolve request.model caller = .ok channel ∧
        (channel.family = .vertexClaude →
          Vertex.Deploys c.regionsInForce (channel.actualModel request.model)) ∧
        ¬ Allows channel.apiKey ∧ fault = .header channel.family.keyHeader) ∧
      ∀ (route : Route) (sink : Sink) (answer : Provider.Answer) (frames : List Sse.Frame)
        (result : Except RelayError Outcome),
        (s.dispatcher.adaptor route).respond route fresh (some sink) answer
          = some (frames, result) → result ≠ .error (.invalid fault) := by
  obtain ⟨channels, hbuilt, hdispatcher⟩ := exists_channels_of_server built
  have hservices : s.dispatcher.services = .ofChannels channels := by rw [hdispatcher]
  have hregions : s.dispatcher.regions = c.regionsInForce := by rw [hdispatcher]
  refine ⟨?_, fun route sink answer frames result hresult h =>
    Adaptor.onlyFails_respond _ (RelayError.follows_sparesCaller _) hresult _ h⟩
  rw [Dispatcher.reply_invalid_iff hservices settled accepted, hservices]
  -- A channel that passed has what a URL needs.
  have hurl : ∀ channel, Services.channelFor channels request.model = .ok channel →
      ((∃ url, (s.dispatcher.adaptor (Dispatcher.routeOf caller request channel)).url fresh.choice
        (Dispatcher.routeOf caller request channel) = .ok url) ↔
          (channel.family = .vertexClaude →
            Vertex.Deploys c.regionsInForce (channel.actualModel request.model))) := by
    intro channel hchannel
    obtain ⟨e, he, hfamily, hproject, -⟩ :=
      exists_entry_of_mem hbuilt (Services.mem_of_channelFor hchannel)
    rw [← hregions]
    refine Adaptor.exists_url_iff rfl fresh.choice fun hvertex => ?_
    show (channel.project.getD "").isEmpty = false
    rw [hproject]
    exact project_of_checkEndpoint (endpoint_of_check checked e he) (hfamily ▸ hvertex)
  constructor
  · rintro ⟨channel, hchannel, hhasUrl, hkey⟩
    exact ⟨channel, hchannel, (hurl channel hchannel).mp hhasUrl, hkey⟩
  · rintro ⟨channel, hchannel, hdeploys, hkey⟩
    exact ⟨channel, hchannel, (hurl channel hchannel).mpr hdeploys, hkey⟩

/-- A provider that calls the request invalid, a caller with headers of its own, and a key with a
tab in it: a header can hold a tab, so the caller is not blamed. -/
theorem invalid_only_for_keys_with_tab :
    let entry : ChannelEntry :=
      { id := "local", name := none, family := .anthropic, baseUrl := "http://host",
        apiKey := some "sk\ttest", apiKeyVariable := none, project := none, models := ["small"],
        mapping := [] }
    let c : Config := { channels := [entry] }
    let send (_ : Post) : Exchange := .answered { status := 400, body := "invalid".toUTF8 }
    let caller : Caller :=
      { id := "tests", protocol := .messages
        headers := [("x-api-key", [1]), ("anthropic-version", [10])] }
    let body := StoredBody.ofText
      "\x7b\"model\": \"small\", \"messages\": [\x7b\"role\": \"user\"\x7d]\x7d"
    c.check Url.parse = .ok () ∧ ∃ s request replaced, c.server (fun _ => none) send = .ok s ∧
      body.settle = .ok (request, replaced) ∧ request.accept = .ok () ∧
      ∀ fault, (s.dispatcher.relay caller body ⟨"1", 0, 0⟩ {}).reply
        ≠ .error (.invalid fault) := by
  intro entry c send caller body
  have hchecked : c.check Url.parse = .ok () := ok_of_toOption (by decide +kernel)
  have haccepted : (body.settle.toOption.bind fun settled => settled.1.accept.toOption)
      = some () := by
    decide +kernel
  obtain ⟨⟨request, replaced⟩, hsettled, haccepted⟩ := Option.bind_eq_some_iff.mp haccepted
  obtain ⟨s, hserver⟩ : ∃ s, c.server (fun _ => none) send = .ok s := ⟨_, rfl⟩
  obtain ⟨channels, hbuilt, hdispatcher⟩ := exists_channels_of_server hserver
  refine ⟨hchecked, s, request, replaced, hserver, ok_of_toOption hsettled,
    ok_of_toOption haccepted, fun fault h => ?_⟩
  -- A failure of this kind would be the fault of the key, and a header can hold a tab.
  obtain ⟨channel, hchannel, -, hkey, -⟩ := (invalid_only_for_keys _ c _ send hchecked hserver
    caller body _ _ (ok_of_toOption hsettled) (ok_of_toOption haccepted) fault).1.mp h
  rw [hdispatcher] at hchannel
  obtain ⟨e, he, -, -, hconfigured⟩ :=
    exists_entry_of_mem hbuilt (Services.mem_of_channelFor hchannel)
  obtain rfl : e = entry := List.mem_singleton.mp he
  have htab : some "sk\ttest" = some channel.apiKey := hconfigured
  rw [← Option.some.inj htab] at hkey
  exact hkey (by decide +kernel)

/-- A key with a line break is taken from a configuration that is loaded and checked, and the
caller of a model of its channel is told that the request is invalid. -/
theorem broken_key_blames_caller :
    let document := "channels:\n  - \x7bid: oa, type: openai, base_url: \"http://host\", " ++
      "api_key: \"sk\\ntest\", models: [small]\x7d\n"
    let env : Environment := fun _ => none
    let send (_ : Post) : Exchange := .failed "refused"
    let caller : Caller := { id := "tests", protocol := .completions }
    let body := StoredBody.ofText
      "\x7b\"model\": \"small\", \"messages\": [\x7b\"role\": \"user\"\x7d]\x7d"
    ∃ c s request replaced,
      Config.load Url.parse (.file "relay.yaml" document.toUTF8.data.toList) env = .ok c ∧
      c.check Url.parse = .ok () ∧ c.server env send = .ok s ∧
      body.settle = .ok (request, replaced) ∧
      request.accept = .ok () ∧ (s.dispatcher.relay caller body ⟨"1", 0, 0⟩ {}).reply
        = .error (.invalid (.header "authorization")) := by
  intro document env send caller body
  have hrun : ((Config.load Url.parse (.file "relay.yaml" document.toUTF8.data.toList)
      env).toOption.bind fun c => (c.server env send).toOption.bind fun s =>
        failureOf? (s.dispatcher.relay caller body ⟨"1", 0, 0⟩ {}).reply)
          = some (.invalid (.header "authorization")) := by
    decide +kernel
  have haccepted : (body.settle.toOption.bind fun settled => settled.1.accept.toOption)
      = some () := by
    decide +kernel
  obtain ⟨c, hloaded, hrun⟩ := Option.bind_eq_some_iff.mp hrun
  obtain ⟨s, hserver, hreply⟩ := Option.bind_eq_some_iff.mp hrun
  obtain ⟨⟨request, replaced⟩, hsettled, haccepted⟩ := Option.bind_eq_some_iff.mp haccepted
  replace hloaded := ok_of_toOption hloaded
  exact ⟨c, s, request, replaced, hloaded, check_of_load hloaded, ok_of_toOption hserver,
    ok_of_toOption hsettled, ok_of_toOption haccepted, of_failureOf? hreply⟩

end Config

end ModelRelay
