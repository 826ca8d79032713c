import ModelRelay.Proofs.Provider.Posts
import ModelRelay.Proofs.Relay.Reply

/-!
# What a provider learns of a caller

With fixed channels, two callers who send the same body in the same protocol make **the same call**,
up to the region it goes to, or fail before it with the same failure; what they are called and which
headers they bring makes no difference, a version of the Messages protocol apart
(`posts_of_callers_agree`). That one header only matters to a channel whose family reads it. In
particular no key of a caller reaches a provider: a call would be the same with any other.

The statement relates two runs of the relay, so it is reduced to one function of a run.
`Dispatcher.outgoing` is the call that goes out, or the failure before it, without anything that
comes after; `Relayed.outgoing` shows that a run makes this call and no other, or ends with this
failure. Two runs agree if their `outgoing` does (`agree_of_outgoing`), and that is compared part by
part along `prepare`: body, URL, headers, pinned model.

The region is chosen at random, and the choice is a parameter of a call. Whether there is a region
does not depend on it (`Vertex.url_cases`), so both callers have a URL or neither has one.

The providers of the two calls may answer as they like. Nothing that they say comes before the call
goes out.
-/

set_option autoImplicit false

namespace ModelRelay

/-! ## Regions

Only Vertex has regions. A choice stands for one of those in which the model is deployed, so two
choices give two URLs of the same deployment. -/

namespace Vertex

/-- The URL of a deployment in one of its regions. -/
def urlIn (host project id region : String) : String :=
  serverOf host region ++ "/v1/projects/" ++ project ++ "/locations/" ++ region ++
    "/publishers/anthropic/models/" ++ id ++ ":streamRawPredict"

/-- Two URLs of one deployment of a model: they differ in the region at most. -/
def SameDeployment (regions : Regions) (url₁ url₂ : String) : Prop :=
  ∃ host project id model region₁ region₂, region₁ ∈ regions.of model ∧
    region₂ ∈ regions.of model ∧ url₁ = urlIn host project id region₁ ∧
      url₂ = urlIn host project id region₂

/-- Every choice stands for a region, if there is one. -/
theorem exists_pick {regions : Regions} {model : String} (choice : Nat)
    (h : regions.of model ≠ []) :
    ∃ region ∈ regions.of model, regions.pick choice model = .ok region := by
  have hlt := Nat.mod_lt choice (List.length_pos_iff.mpr h)
  exact ⟨_, List.getElem_mem hlt, by rw [Regions.pick, List.getElem?_eq_getElem hlt]⟩

/-- Two choices both stand for a region, or there is none and both fail alike. -/
theorem pick_cases (regions : Regions) (choice₁ choice₂ : Nat) (model : String) :
    (∃ e, regions.pick choice₁ model = .error e ∧ regions.pick choice₂ model = .error e) ∨
      ∃ region₁ region₂, region₁ ∈ regions.of model ∧ region₂ ∈ regions.of model ∧
        regions.pick choice₁ model = .ok region₁ ∧ regions.pick choice₂ model = .ok region₂ := by
  by_cases hnone : regions.of model = []
  · exact .inl ⟨.unresolved (.noRegion model), by simp [Regions.pick, hnone]⟩
  · obtain ⟨region₁, hserved₁, hpick₁⟩ := exists_pick choice₁ hnone
    obtain ⟨region₂, hserved₂, hpick₂⟩ := exists_pick choice₂ hnone
    exact .inr ⟨region₁, region₂, hserved₁, hserved₂, hpick₁, hpick₂⟩

/-- The host of a route. -/
def hostOf (route : Route) : String :=
  if route.baseUrl.isEmpty then defaultHost else route.baseUrl

theorem url_of_parts {regions : Regions} {choice : Nat} {route : Route} {region id project : String}
    (hregion : regions.pick choice route.actualModel = .ok region)
    (hid : modelId route.actualModel = .ok id)
    (hproject : route.channel.project.filter (!·.isEmpty) = some project) :
    url regions choice route = .ok (urlIn (hostOf route) project id region) := by
  rw [url, hregion, hid, hproject]
  rfl

/-- Whether a route has a URL is not up to the choice of a region. -/
theorem url_cases (regions : Regions) (choice₁ choice₂ : Nat) (route : Route) :
    (∃ e, url regions choice₁ route = .error e ∧ url regions choice₂ route = .error e) ∨
      ∃ url₁ url₂, url regions choice₁ route = .ok url₁ ∧ url regions choice₂ route = .ok url₂ ∧
        SameDeployment regions url₁ url₂ := by
  obtain ⟨e, h₁, h₂⟩ | ⟨region₁, region₂, hserved₁, hserved₂, h₁, h₂⟩ :=
    pick_cases regions choice₁ choice₂ route.actualModel
  · exact .inl ⟨e, by rw [url, h₁]; rfl, by rw [url, h₂]; rfl⟩
  cases hid : modelId route.actualModel with
  | error e => exact .inl ⟨e, by rw [url, h₁, hid]; rfl, by rw [url, h₂, hid]; rfl⟩
  | ok id =>
  cases hproject : route.channel.project.filter (!·.isEmpty) with
  | none =>
    exact .inl ⟨_, by rw [url, h₁, hid, hproject]; rfl, by rw [url, h₂, hid, hproject]; rfl⟩
  | some project =>
    exact .inr ⟨_, _, url_of_parts h₁ hid hproject, url_of_parts h₂ hid hproject, hostOf route,
      project, id, route.actualModel, region₁, region₂, hserved₁, hserved₂, rfl, rfl⟩

end Vertex

/-! ## Calls that look alike

The relation has one field for each that a call has, so it says all that a provider can see. -/

/-- Two calls that a provider cannot tell apart, but for the region that was taken. -/
structure Post.Alike (regions : Vertex.Regions) (post₁ post₂ : Post) : Prop where
  url : post₁.url = post₂.url ∨ Vertex.SameDeployment regions post₁.url post₂.url
  headers : post₁.headers = post₂.headers
  body : post₁.body = post₂.body
  timeout : post₁.timeout = post₂.timeout

theorem Post.Alike.refl {regions : Vertex.Regions} (post : Post) : Post.Alike regions post post :=
  ⟨.inl rfl, rfl, rfl, rfl⟩

/-- The version of the Messages protocol that a caller asks for. -/
def Caller.version? (caller : Caller) : Option String :=
  caller.headers.nonempty? "anthropic-version"

/-- Of a caller's headers at most the version has a part in the headers of a call. -/
theorem Adaptor.familyHeaders_congr {family : Family} {inbound₁ inbound₂ : Http.Headers}
    (hversion : family = .anthropic →
      inbound₁.nonempty? "anthropic-version" = inbound₂.nonempty? "anthropic-version")
    (apiKey : String) :
    familyHeaders family inbound₁ apiKey = familyHeaders family inbound₂ apiKey := by
  cases family with
  | openai | vertexClaude => rfl
  | anthropic => simp only [familyHeaders, hversion rfl]

/-- The headers of a call are the same for callers who ask for one version. -/
theorem Adaptor.headers_congr {a : Adaptor} {inbound₁ inbound₂ : Http.Headers} (route : Route)
    (hversion : a.family = .anthropic →
      inbound₁.nonempty? "anthropic-version" = inbound₂.nonempty? "anthropic-version") :
    a.headers inbound₁ route = a.headers inbound₂ route := by
  have hadded : a.addHeaders inbound₁ route [] = a.addHeaders inbound₂ route [] := by
    rw [addHeaders, addHeaders, familyHeaders_congr hversion]
  rw [headers, headers, hadded]

/-- Two choices give one URL, or two of the same deployment, or fail alike. -/
theorem Adaptor.url_cases (a : Adaptor) (choice₁ choice₂ : Nat) (route : Route) :
    a.url choice₁ route = a.url choice₂ route ∨
      ∃ url₁ url₂, a.url choice₁ route = .ok url₁ ∧ a.url choice₂ route = .ok url₂ ∧
        Vertex.SameDeployment a.regions url₁ url₂ := by
  rw [url, url]
  cases hready : a.ensureReady with
  | error e => exact .inl rfl
  | ok _ =>
  cases hfamily : a.family with
  | openai | anthropic => exact .inl rfl
  | vertexClaude =>
    obtain ⟨e, h₁, h₂⟩ | h := Vertex.url_cases a.regions choice₁ choice₂ route
    · exact .inl (h₁.trans h₂.symm)
    · exact .inr h

namespace Dispatcher

variable {d : Dispatcher} {caller caller₁ caller₂ : Caller} {request : Chat.Request}
  {fresh fresh₁ fresh₂ : Fresh} {reader : Delivery.Session.Caller}

/-- The caller and what is made up for a call have a part in it through the version of the protocol
and the choice of a region. -/
theorem prepare_congr {route : Route} (request : Chat.Request)
    (hversion : route.channel.family = .anthropic → caller₁.version? = caller₂.version?)
    (hchoice : fresh₁.choice = fresh₂.choice) :
    d.prepare caller₁ route request fresh₁ = d.prepare caller₂ route request fresh₂ := by
  have hheaders : (d.adaptor route).headers caller₁.headers route
      = (d.adaptor route).headers caller₂.headers route := Adaptor.headers_congr route hversion
  rw [prepare, prepare, hheaders, hchoice]

/-- How a call goes out for two callers and two choices of a region. -/
theorem prepare_cases {route : Route} (request : Chat.Request) (fresh₁ fresh₂ : Fresh)
    (hversion : route.channel.family = .anthropic → caller₁.version? = caller₂.version?) :
    d.prepare caller₁ route request fresh₁ = d.prepare caller₂ route request fresh₂ ∨
      ∃ post₁ post₂, d.prepare caller₁ route request fresh₁ = .ok post₁ ∧
        d.prepare caller₂ route request fresh₂ = .ok post₂ ∧ Post.Alike d.regions post₁ post₂ := by
  have hheaders : (d.adaptor route).headers caller₁.headers route
      = (d.adaptor route).headers caller₂.headers route := Adaptor.headers_congr route hversion
  rw [prepare, prepare, hheaders]
  -- The two calls are put together from the same parts, up to the URL.
  cases (d.adaptor route).body route.protocol
      (some { request with model := route.actualModel }) with
  | error e => exact .inl rfl
  | ok plain =>
  obtain hurl | ⟨url₁, url₂, h₁, h₂, hsame⟩ :=
    (d.adaptor route).url_cases fresh₁.choice fresh₂.choice route
  · rw [hurl]
    exact .inl rfl
  rw [h₁, h₂]
  cases (d.adaptor route).headers caller₂.headers route with
  | error e => exact .inl rfl
  | ok headers =>
  dsimp only [bind, Except.bind]
  cases (d.adaptor route).pinned route plain.print with
  | error e => exact .inl rfl
  | ok text => exact .inr ⟨_, _, rfl, rfl, .inr hsame, rfl, rfl, rfl⟩

/-! ## The call that goes out

`outgoing` is what a run does up to its call, without the steps that it takes for it. -/

/-- The call that goes out for a settled request, or the failure that comes before it. -/
def outgoing (d : Dispatcher) (caller : Caller) (request : Chat.Request) (fresh : Fresh) :
    Except RelayError Post := do
  request.accept
  let channel ← d.services.resolve request.model caller
  d.services.reserve caller (Chat.Tokens.ofPrompt request)
  d.prepare caller (routeOf caller request channel) request fresh

/-- The calls that were made. -/
def Report.posts (r : Report) : List Post :=
  r.effects.filterMap Effect.post?

/-- A call that goes out is the one that was prepared. -/
theorem Posts.outgoing {channel : Channel} {post : Post}
    (h : Posts d caller request fresh channel post) :
    d.outgoing caller request fresh = .ok post := by
  rw [Dispatcher.outgoing, h.admits.valid, h.admits.resolved, h.admits.reserved]
  exact h.prepared

@[simp] theorem filterMap_admission : (admission request).filterMap Effect.post? = [] := rfl

@[simp] theorem filterMap_billing (route : Route) (result : Except RelayError Outcome) :
    (billing route result).filterMap Effect.post? = [] := by
  cases result <;> rfl

/-- A call goes out at most once, and if none does then the reply says why. -/
theorem Relayed.outgoing {effects : List Effect} {reply : Except RelayError Reply}
    (h : Relayed d caller request fresh reader effects reply) :
    (∃ post, d.outgoing caller request fresh = .ok post ∧
        effects.filterMap Effect.post? = [post]) ∨
      ∃ e, d.outgoing caller request fresh = .error e ∧ effects.filterMap Effect.post? = [] ∧
        reply = .error e := by
  cases h with
  | invalid invalid =>
    exact .inr ⟨_, by rw [Dispatcher.outgoing, invalid]; rfl, rfl, rfl⟩
  | unresolved valid unresolved =>
    exact .inr ⟨_, by rw [Dispatcher.outgoing, valid, unresolved]; rfl, rfl, rfl⟩
  | denied valid resolved denied =>
    exact .inr ⟨_, by rw [Dispatcher.outgoing, valid, resolved, denied]; rfl, rfl, rfl⟩
  | unprepared admits unprepared =>
    refine .inr ⟨_, ?_, rfl, rfl⟩
    rw [Dispatcher.outgoing, admits.valid, admits.resolved, admits.reserved]
    exact unprepared
  | unanswered posts | rejected posts | misunderstood posts | waiting posts =>
    exact .inl ⟨_, posts.outgoing, rfl⟩
  | whole posts | streamed posts =>
    refine .inl ⟨_, posts.outgoing, ?_⟩
    rw [List.filterMap_append, filterMap_admission]
    exact congrArg (_ :: ·) (filterMap_billing _ _)

/-! ## Two callers

The two runs are of one body, which is settled before anyone is asked who calls. -/

/-- Two relayed calls each make one call, and these are related; or neither makes one, and both fail
alike. -/
inductive Report.Agree (R : Post → Post → Prop) (r₁ r₂ : Report) : Prop where
  | posted {post₁ post₂ : Post} (posts₁ : r₁.posts = [post₁]) (posts₂ : r₂.posts = [post₂])
      (related : R post₁ post₂) : Agree R r₁ r₂
  | stopped {e : RelayError} (posts₁ : r₁.posts = []) (posts₂ : r₂.posts = [])
      (reply₁ : r₁.reply = .error e) (reply₂ : r₂.reply = .error e) : Agree R r₁ r₂

theorem posts_of_outgoing {body : StoredBody} {replaced : Option StoredBody} {post : Post}
    (hsettled : body.settle = .ok (request, replaced))
    (hout : d.outgoing caller request fresh = .ok post) :
    (d.relay caller body fresh reader).posts = [post] := by
  have hrelayed : Relayed d caller request fresh reader _ _ := relayed_of_settle hsettled
  obtain ⟨post', hout', hposts⟩ | ⟨e, hout', -⟩ := hrelayed.outgoing
  · rw [Report.posts, hposts, Except.ok.inj (hout'.symm.trans hout)]
  · exact absurd (hout'.symm.trans hout) (by simp)

theorem stopped_of_outgoing (reader : Delivery.Session.Caller) {body : StoredBody}
    {replaced : Option StoredBody} {e : RelayError}
    (hsettled : body.settle = .ok (request, replaced))
    (hout : d.outgoing caller request fresh = .error e) :
    (d.relay caller body fresh reader).posts = [] ∧
      (d.relay caller body fresh reader).reply = .error e := by
  have hrelayed : Relayed d caller request fresh reader _ _ := relayed_of_settle hsettled
  obtain ⟨post, hout', -⟩ | ⟨e', hout', hposts, hreply⟩ := hrelayed.outgoing
  · exact absurd (hout'.symm.trans hout) (by simp)
  · obtain rfl := Except.error.inj (hout'.symm.trans hout)
    exact ⟨hposts, hreply⟩

/-- Two runs agree if the same call goes out in both, or if two related ones do. -/
theorem agree_of_outgoing {R : Post → Post → Prop} (hrefl : ∀ post, R post post)
    {d₁ d₂ : Dispatcher} {reader₁ reader₂ : Delivery.Session.Caller} {body : StoredBody}
    {replaced : Option StoredBody} (hsettled : body.settle = .ok (request, replaced))
    (h : d₁.outgoing caller₁ request fresh₁ = d₂.outgoing caller₂ request fresh₂ ∨
      ∃ post₁ post₂, d₁.outgoing caller₁ request fresh₁ = .ok post₁ ∧
        d₂.outgoing caller₂ request fresh₂ = .ok post₂ ∧ R post₁ post₂) :
    Report.Agree R (d₁.relay caller₁ body fresh₁ reader₁)
      (d₂.relay caller₂ body fresh₂ reader₂) := by
  obtain hsame | ⟨post₁, post₂, hout₁, hout₂, hrelated⟩ := h
  · cases hout₂ : d₂.outgoing caller₂ request fresh₂ with
    | ok post =>
      have hout₁ := hsame.trans hout₂
      exact .posted (posts_of_outgoing hsettled hout₁) (posts_of_outgoing hsettled hout₂)
        (hrefl post)
    | error e =>
      have hout₁ := hsame.trans hout₂
      obtain ⟨hposts₁, hreply₁⟩ := stopped_of_outgoing reader₁ hsettled hout₁
      obtain ⟨hposts₂, hreply₂⟩ := stopped_of_outgoing reader₂ hsettled hout₂
      exact .stopped hposts₁ hposts₂ hreply₁ hreply₂
  · exact .posted (posts_of_outgoing hsettled hout₁) (posts_of_outgoing hsettled hout₂) hrelated

/-- Fixed channels resolve alike for all callers, and deny nobody. -/
theorem outgoing_ofChannels {channels : List Channel}
    (hchannels : d.services = .ofChannels channels) (caller : Caller) (request : Chat.Request)
    (fresh : Fresh) :
    d.outgoing caller request fresh = (do
      request.accept
      let channel ← Services.channelFor channels request.model
      d.prepare caller (routeOf caller request channel) request fresh) := by
  rw [outgoing, hchannels]
  rfl

/-- Which call goes out does not depend on who makes it, up to the version that is asked for and
the region that is taken. -/
theorem outgoing_cases {channels : List Channel} (hchannels : d.services = .ofChannels channels)
    (request : Chat.Request) (fresh₁ fresh₂ : Fresh)
    (hprotocol : caller₁.protocol = caller₂.protocol)
    (hversion : ∀ channel, Services.channelFor channels request.model = .ok channel →
      channel.family = .anthropic → caller₁.version? = caller₂.version?) :
    (fresh₁.choice = fresh₂.choice →
        d.outgoing caller₁ request fresh₁ = d.outgoing caller₂ request fresh₂) ∧
      (d.outgoing caller₁ request fresh₁ = d.outgoing caller₂ request fresh₂ ∨
        ∃ post₁ post₂, d.outgoing caller₁ request fresh₁ = .ok post₁ ∧
          d.outgoing caller₂ request fresh₂ = .ok post₂ ∧
          Post.Alike d.regions post₁ post₂) := by
  rw [outgoing_ofChannels hchannels, outgoing_ofChannels hchannels]
  cases request.accept with
  | error e => exact ⟨fun _ => rfl, .inl rfl⟩
  | ok _ =>
  cases hchannel : Services.channelFor channels request.model with
  | error e => exact ⟨fun _ => rfl, .inl rfl⟩
  | ok channel =>
    have hroute : routeOf caller₁ request channel = routeOf caller₂ request channel := by
      rw [routeOf, routeOf, hprotocol]
    dsimp only [bind, Except.bind]
    rw [hroute]
    exact ⟨prepare_congr request (hversion channel hchannel),
      prepare_cases request fresh₁ fresh₂ (hversion channel hchannel)⟩

/-- **A provider learns nothing of a caller but the version asked for**, and that only if it is a
provider whose family reads versions. Two callers who send one body in one protocol make calls with
the same headers, the same body and the same URL up to the region, or none and fail alike. If the
same region is taken, then they make the same call.

The call is made of the request, the route and the headers that a family adds, and the caller has a
part in the last of them only. The choice of a region has a part in the URL only. -/
theorem posts_of_callers_agree (d : Dispatcher) (channels : List Channel)
    (send₁ send₂ : Post → Exchange) {caller₁ caller₂ : Caller} (body : StoredBody)
    (fresh₁ fresh₂ : Fresh) (reader₁ reader₂ : Delivery.Session.Caller)
    (protocol : caller₁.protocol = caller₂.protocol)
    (version : caller₁.version? = caller₂.version? ∨
      ∀ request replaced channel, body.settle = .ok (request, replaced) →
        Services.channelFor channels request.model = .ok channel → channel.family ≠ .anthropic) :
    Report.Agree
      (fun post₁ post₂ => Post.Alike d.regions post₁ post₂ ∧
        (fresh₁.choice = fresh₂.choice → post₁ = post₂))
      ({ d with services := .ofChannels channels, send := send₁ }.relay caller₁ body fresh₁ reader₁)
      ({ d with services := .ofChannels channels, send := send₂ }.relay caller₂ body fresh₂ reader₂)
    := by
  cases hsettled : body.settle with
  | error e =>
    rw [relay_unreadable hsettled, relay_unreadable hsettled]
    exact .stopped rfl rfl rfl rfl
  | ok settled =>
  obtain ⟨request, replaced⟩ := settled
  have hversion : ∀ channel, Services.channelFor channels request.model = .ok channel →
      channel.family = .anthropic → caller₁.version? = caller₂.version? := by
    intro channel hchannel hfamily
    obtain hsame | hother := version
    · exact hsame
    · exact absurd hfamily (hother request replaced channel hsettled hchannel)
  obtain ⟨hchoice, hcases⟩ := outgoing_cases
    (d := { d with services := .ofChannels channels, send := send₁ }) rfl request fresh₁ fresh₂
    protocol hversion
  refine agree_of_outgoing (fun post => ⟨.refl post, fun _ => rfl⟩) hsettled ?_
  -- With one choice the calls are the same, and with two they look alike; both are asked for.
  by_cases hfresh : fresh₁.choice = fresh₂.choice
  · exact .inl (hchoice hfresh)
  · obtain hsame | ⟨post₁, post₂, hout₁, hout₂, halike⟩ := hcases
    · exact .inl hsame
    · exact .inr ⟨post₁, post₂, hout₁, hout₂, halike, fun h => absurd h hfresh⟩

/-- Two callers with keys and names of their own, and a channel whose model is deployed twice. The
calls go to two regions, and only there do they differ. -/
theorem posts_of_two_callers_agree :
    let channel : Channel :=
      { id := "cloud", family := .vertexClaude, baseUrl := "", apiKey := "key"
        project := some "project", models := ["claude-3-5-sonnet-20240620"] }
    let d : Dispatcher :=
      { services := .ofChannels [channel], send := fun _ => .failed "refused" }
    let body := StoredBody.ofText ("\x7b\"model\": \"claude-3-5-sonnet-20240620\", " ++
      "\"messages\": [\x7b\"role\": \"user\", \"content\": \"hi\"\x7d]\x7d")
    let caller₁ : Caller :=
      { id := "one", requestId := "1", protocol := .completions
        headers := [("authorization", "Bearer one".toUTF8.data.toList)] }
    let caller₂ : Caller :=
      { id := "two", label := "second", protocol := .completions
        headers := [("x-api-key", "two".toUTF8.data.toList),
          ("anthropic-version", "2024-01-01".toUTF8.data.toList)] }
    let report₁ := d.relay caller₁ body ⟨"1", 0, 0⟩ {}
    let report₂ := d.relay caller₂ body ⟨"2", 1, 1⟩ {}
    caller₁.version? ≠ caller₂.version? ∧
      report₁.Agree (fun post₁ post₂ => Post.Alike d.regions post₁ post₂ ∧
        ((0 : Nat) = 1 → post₁ = post₂)) report₂ ∧
      report₁.posts.map (·.url) ≠ report₂.posts.map (·.url) := by
  intro channel d body caller₁ caller₂ report₁ report₂
  -- The one channel reads no versions, so that the callers ask for two makes no difference.
  have hother : ∀ request replaced channel', body.settle = .ok (request, replaced) →
      Services.channelFor [channel] request.model = .ok channel' →
        channel'.family ≠ .anthropic := by
    intro request replaced channel' _ hchannel
    obtain rfl : channel' = channel := by simpa using Services.mem_of_channelFor hchannel
    simp [channel]
  exact ⟨by decide +kernel,
    posts_of_callers_agree d [channel] d.send d.send body ⟨"1", 0, 0⟩ ⟨"2", 1, 1⟩ {} {} rfl
      (.inr hother),
    by decide +kernel⟩

end Dispatcher

end ModelRelay
