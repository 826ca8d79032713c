import ModelRelay.Proofs.Config.Keys

/-!
# What an accepted configuration is good for

A configuration is checked field by field, then channel by channel, then region by region; the first
thing that is wrong ends it. Taken together the checks ask for no more and no less than `IsUsable`.
**A channel that was built from an accepted configuration has a URL for every model**, unless its
calls go to regions and the model is deployed in none or has no id there. The project that pays for
such a call is never what is missing (`accepted_channels_have_urls`).

Which texts are URLs is left to a `UrlParser`. Of it one thing is asked, that it takes the empty
text for no URL (`RefusesEmpty`): a channel without a base URL is turned away before the parser sees
it, and only so is that the same as not having a URL of the web. With a parser that took it, the
checks would ask for more than `IsUsable` says.

The two halves meet in two places. That no list of regions is empty makes a model that is named one
that is deployed (`of_ne_nil_iff`), and that a channel with regions has a project leaves a call two
things to want for, the region and the id (`url_error`).

Each check has a lemma that says what it asks for, as an equivalence, and `check_ok_iff` only puts
them together. A check that is added has its lemma to write and one field of `IsUsable` to fill.
-/

set_option autoImplicit false

namespace ModelRelay

/-! ## Ids of deployed models

Some models have an id that is listed. For the others the date behind the last hyphen is set apart,
and a name without a date has no id. -/

namespace Vertex

/-- A model has an id: one of its own, or the one that its name and its date make. -/
def HasId (model : String) : Prop :=
  model ∈ namedIds.map Prod.fst ∨
    ∃ name date, model.toList = name ++ '-' :: date ∧ name ≠ [] ∧ date.length = 8 ∧
      ∀ d ∈ date, d.isDigit = true

/-- A name can be split exactly if it ends in a hyphen and eight digits. -/
theorem exists_splitDate?_iff {model : String} :
    (∃ parts, splitDate? model = some parts) ↔
      ∃ name date, model.toList = name ++ '-' :: date ∧ name ≠ [] ∧ date.length = 8 ∧
        ∀ d ∈ date, d.isDigit = true := by
  -- From the end: the date is what stands before the first hyphen, and the name is behind it.
  have hsplit := List.takeWhile_append_dropWhile (p := (· != '-')) (l := model.toList.reverse)
  have hdrop := (congrArg (List.drop (model.toList.reverse.takeWhile (· != '-')).length)
    hsplit.symm).trans List.drop_left
  simp only [splitDate?, List.length_reverse, hdrop]
  constructor
  · rintro ⟨parts, h⟩
    split at h
    · next hyphen name hname =>
      have hhyphen := List.head?_dropWhile_not (· != '-') model.toList.reverse
      rw [hname] at hsplit hhyphen
      obtain rfl : hyphen = '-' := by simpa using hhyphen
      split at h
      · next hparts =>
        simp only [Bool.and_eq_true, Bool.not_eq_true', List.isEmpty_eq_false_iff, beq_iff_eq,
          List.all_eq_true] at hparts
        refine ⟨name.reverse, _, ?_, by simpa using hparts.1.1, ?_, hparts.2⟩
        · have hmodel := congrArg List.reverse hsplit
          simpa using hmodel.symm
        · rw [List.length_reverse]
          exact hparts.1.2
      · nomatch h
    · nomatch h
  · rintro ⟨name, date, hmodel, hname, hlength, hdigits⟩
    have hreverse : model.toList.reverse = date.reverse ++ '-' :: name.reverse := by simp [hmodel]
    have hnone : ∀ d ∈ date.reverse, (d != '-') = true := by
      intro d hd
      have hdigit := hdigits d (List.mem_reverse.mp hd)
      rw [bne_iff_ne]
      rintro rfl
      exact absurd hdigit (by decide)
    rw [hreverse, List.takeWhile_append_of_pos hnone, List.dropWhile_append_of_pos hnone,
      List.takeWhile_cons_of_neg (by simp), List.dropWhile_cons_of_neg (by simp)]
    exact ⟨_, if_pos (by simpa [hname, hlength] using hdigits)⟩

theorem exists_modelId_iff {model : String} : (∃ id, modelId model = .ok id) ↔ HasId model := by
  rw [HasId, ← exists_splitDate?_iff, modelId]
  cases hnamed : namedIds.lookup model with
  | some id =>
    have hmem := Json.mem_of_lookup hnamed
    exact ⟨fun _ => .inl (List.mem_map_of_mem hmem), fun _ => ⟨id, rfl⟩⟩
  | none =>
    have hunnamed := Json.notMem_of_lookup hnamed
    cases splitDate? model with
    | some parts => exact ⟨fun _ => .inr ⟨parts, rfl⟩, fun _ => ⟨_, rfl⟩⟩
    | none => simp [hunnamed]

/-- What a call with regions fails with when somebody pays for it: there is no region, or else there
is no id. -/
theorem url_error {regions : Regions} {choice : Nat} {route : Route} {e : RelayError}
    (hproject : (route.channel.project.getD "").isEmpty = false)
    (h : url regions choice route = .error e) :
    (regions.of route.actualModel = [] ∧ e = .unresolved (.noRegion route.actualModel)) ∨
      regions.of route.actualModel ≠ [] ∧ ¬ HasId route.actualModel ∧
        e = .unresolved (.unsupported route.actualModel) := by
  obtain ⟨project, hbilled⟩ := Adaptor.exists_project hproject
  by_cases hnone : regions.of route.actualModel = []
  · refine .inl ⟨hnone, ?_⟩
    have hpick : regions.pick choice route.actualModel
        = .error (.unresolved (.noRegion route.actualModel)) := by simp [Regions.pick, hnone]
    rw [url, hpick] at h
    exact (Except.error.inj h).symm
  · obtain ⟨region, -, hregion⟩ := exists_pick choice hnone
    cases hid : modelId route.actualModel with
    | ok id =>
      rw [url_of_parts hregion hid hbilled] at h
      cases h
    | error fault =>
      refine .inr ⟨hnone, fun hhas => ?_, ?_⟩
      · obtain ⟨id, hok⟩ := exists_modelId_iff.mpr hhas
        rw [hid] at hok
        cases hok
      · rw [url, hregion, hid] at h
        rw [← Except.error.inj h]
        rw [modelId] at hid
        split at hid
        · cases hid
        · cases hid
        · exact (Except.error.inj hid).symm

end Vertex

namespace Config

/-! ## Fields within their limits

A field within its limits leaves no violation, and a URL is one of the web if its scheme is. -/

theorem limit_eq_nil {holds : Bool} {path code : String} :
    limit holds path code = [] ↔ holds = true := by
  cases holds <;> simp [limit]

/-- The empty text is no absolute URL. -/
def UrlParser.RefusesEmpty (parse : UrlParser) : Prop :=
  ∀ scheme, parse "" ≠ .ok scheme

variable {parse : UrlParser}

/-- A URL that can be called: it is absolute, and its scheme is one of the web. -/
def IsWebUrl (parse : UrlParser) (s : String) : Prop :=
  parse s = .ok "http" ∨ parse s = .ok "https"

theorem checkUrl_ok_iff {s : String} : checkUrl parse s = .ok () ↔ IsWebUrl parse s := by
  rw [checkUrl, IsWebUrl]
  cases parse s with
  | error _ => simp
  | ok scheme => by_cases h : scheme = "http" ∨ scheme = "https" <;> simp [h]

theorem UrlParser.RefusesEmpty.not_isWebUrl (h : parse.RefusesEmpty) : ¬ IsWebUrl parse "" := by
  rintro (hhttp | hhttps)
  · exact h _ hhttp
  · exact h _ hhttps

namespace ChannelEntry

variable {e : ChannelEntry}

/-- What is asked of a channel that is configured. -/
structure IsUsable (parse : UrlParser) (e : ChannelEntry) : Prop where
  id : 1 ≤ e.id.length ∧ e.id.length ≤ 128
  models : e.models ≠ []
  url : e.family = .openai ∨ e.family = .anthropic → IsWebUrl parse e.baseUrl
  project : e.family = .vertexClaude → ∃ project, e.project = some project ∧ project ≠ ""
  host : e.family = .vertexClaude → "://".toList <:+: e.baseUrl.toList → IsWebUrl parse e.baseUrl

/-- **What is asked of an endpoint**: a URL of the web from two families; a project from the third,
and of its host only that it is a URL if it looks like one. -/
theorem checkEndpoint_ok_iff (hempty : parse.RefusesEmpty) : e.checkEndpoint parse = .ok () ↔
    (e.family = .openai ∨ e.family = .anthropic → IsWebUrl parse e.baseUrl) ∧
      (e.family = .vertexClaude → (∃ project, e.project = some project ∧ project ≠ "") ∧
        ("://".toList <:+: e.baseUrl.toList → IsWebUrl parse e.baseUrl)) := by
  have hproject : (∃ project, e.project = some project ∧ project ≠ "") ↔
      (e.project.getD "").isEmpty = false := by
    cases e.project <;> simp
  rw [hproject, ← Vertex.hasScheme_iff, ← checkUrl_ok_iff, checkEndpoint]
  cases e.family with
  | openai | anthropic =>
    -- A URL that is not there is not absolute.
    by_cases hnone : e.baseUrl = ""
    · have hrelative := hempty.not_isWebUrl
      rw [← checkUrl_ok_iff] at hrelative
      simp [hnone, hrelative]
    · simp [hnone]
  | vertexClaude =>
    by_cases hnone : (e.project.getD "").isEmpty = true
    · simp [hnone]
    · by_cases hscheme : Vertex.hasScheme e.baseUrl = true <;> simp [hnone, hscheme]

theorem violations_eq_nil {index : Nat} : e.violations index = [] ↔
    (1 ≤ e.id.length ∧ e.id.length ≤ 128) ∧ e.models ≠ [] := by
  simp only [violations, List.append_eq_nil_iff, limit_eq_nil, Bool.and_eq_true,
    decide_eq_true_eq, Bool.not_eq_true', List.isEmpty_eq_false_iff]
  exact Iff.rfl

end ChannelEntry

/-- What is asked of a configuration. -/
structure IsUsable (parse : UrlParser) (c : Config) : Prop where
  host : c.listen.host ≠ ""
  number : 1 ≤ c.listen.number
  buffer : 1 ≤ c.relay.streamBuffer ∧ c.relay.streamBuffer ≤ 65536
  level : c.logging.level ≠ ""
  ids : (c.channels.map (·.id)).Nodup
  channels : ∀ e ∈ c.channels, e.IsUsable parse
  regions : ∀ entry ∈ c.regions, entry.2 ≠ []

variable {c : Config}

theorem violations_eq_nil : c.violations = [] ↔
    (c.listen.host ≠ "" ∧ 1 ≤ c.listen.number ∧
      (1 ≤ c.relay.streamBuffer ∧ c.relay.streamBuffer ≤ 65536) ∧ c.logging.level ≠ "") ∧
      ∀ e ∈ c.channels, (1 ≤ e.id.length ∧ e.id.length ≤ 128) ∧ e.models ≠ [] := by
  have hchannels : (c.channels.zipIdx.flatMap fun entry => entry.1.violations entry.2) = [] ↔
      ∀ e ∈ c.channels, (1 ≤ e.id.length ∧ e.id.length ≤ 128) ∧ e.models ≠ [] := by
    rw [List.flatMap_eq_nil_iff]
    constructor
    · intro h e he
      obtain ⟨index, hlt, rfl⟩ := List.mem_iff_getElem.mp he
      exact ChannelEntry.violations_eq_nil.mp
        (h (_, index) (List.mk_mem_zipIdx_iff_getElem?.mpr (List.getElem?_eq_getElem hlt)))
    · rintro h ⟨e, index⟩ he
      exact ChannelEntry.violations_eq_nil.mpr (h e (List.fst_mem_of_mem_zipIdx he))
  simp only [violations, List.append_eq_nil_iff, limit_eq_nil, hchannels, Bool.and_eq_true,
    decide_eq_true_eq, Bool.not_eq_true', String.isEmpty_eq_false_iff, and_assoc]
  exact Iff.rfl

/-- The channels are gone through once, with the ids of those before. -/
theorem checkChannels_ok_iff {seen : List String} {entries : List ChannelEntry} :
    checkChannels parse seen entries = .ok () ↔ (entries.map (·.id)).Nodup ∧
      (∀ e ∈ entries, e.id ∉ seen) ∧ ∀ e ∈ entries, e.checkEndpoint parse = .ok () := by
  induction entries generalizing seen with
  | nil => simp [checkChannels]
  | cons e rest ih =>
    rw [checkChannels]
    by_cases hseen : e.id ∈ seen
    · simp [hseen]
    · rw [if_neg (by simpa using hseen)]
      cases hendpoint : e.checkEndpoint parse with
      | error fault => simp [hendpoint]
      | ok _ =>
        rw [ih]
        -- The ids that were seen grow by the one in front, which is how a repeated one is noticed
        -- later.
        constructor
        · rintro ⟨hids, hfresh, hall⟩
          have hnew : e.id ∉ rest.map (·.id) := by
            intro hmem
            obtain ⟨other, hother, hsame⟩ := List.mem_map.mp hmem
            exact hfresh other hother (hsame ▸ List.mem_cons_self)
          exact ⟨List.nodup_cons.mpr ⟨hnew, hids⟩, List.forall_mem_cons.mpr ⟨hseen,
            fun other hother hmem => hfresh other hother (List.mem_cons_of_mem _ hmem)⟩,
            List.forall_mem_cons.mpr ⟨hendpoint, hall⟩⟩
        · rintro ⟨hids, hfresh, hall⟩
          obtain ⟨hnew, hids⟩ := List.nodup_cons.mp hids
          refine ⟨hids, fun other hother hmem => ?_, (List.forall_mem_cons.mp hall).2⟩
          rcases List.mem_cons.mp hmem with hsame | hmem
          · exact hnew (List.mem_map.mpr ⟨other, hother, hsame⟩)
          · exact hfresh other (List.mem_cons_of_mem _ hother) hmem

theorem checkRegions_ok_iff {regions : Vertex.Regions} :
    checkRegions regions = .ok () ↔ ∀ entry ∈ regions, entry.2 ≠ [] := by
  induction regions with
  | nil => simp [checkRegions]
  | cons entry rest ih =>
    obtain ⟨model, regions⟩ := entry
    rw [checkRegions, List.forall_mem_cons, ← ih]
    cases regions <;> simp

/-- A configuration passes if the fields, the channels and the regions do. -/
theorem check_eq_ok : c.check parse = .ok () ↔ c.violations = [] ∧
    checkChannels parse [] c.channels = .ok () ∧ checkRegions c.regions = .ok () := by
  rw [check]
  cases c.violations with
  | cons _ _ => simp [throw, throwThe, MonadExceptOf.throw, bind, Except.bind]
  | nil => cases checkChannels parse [] c.channels <;> simp [bind, Except.bind]

/-- **The checks of a configuration ask for what makes it usable**, no more and no less. -/
theorem check_ok_iff (hempty : parse.RefusesEmpty) : c.check parse = .ok () ↔ c.IsUsable parse := by
  rw [check_eq_ok, violations_eq_nil, checkChannels_ok_iff, checkRegions_ok_iff]
  constructor
  · rintro ⟨⟨⟨hhost, hnumber, hbuffer, hlevel⟩, hlimits⟩, ⟨hids, -, hendpoints⟩, hregions⟩
    refine ⟨hhost, hnumber, hbuffer, hlevel, hids, fun e he => ?_, hregions⟩
    obtain ⟨hurl, hdeployed⟩ := (ChannelEntry.checkEndpoint_ok_iff hempty).mp (hendpoints e he)
    exact ⟨(hlimits e he).1, (hlimits e he).2, hurl, fun h => (hdeployed h).1,
      fun h => (hdeployed h).2⟩
  · intro h
    refine ⟨⟨⟨h.host, h.number, h.buffer, h.level⟩, fun e he => ?_⟩, ⟨h.ids, ?_, fun e he => ?_⟩,
      h.regions⟩
    · exact ⟨(h.channels e he).id, (h.channels e he).models⟩
    · exact fun _ _ => List.not_mem_nil
    · exact (ChannelEntry.checkEndpoint_ok_iff hempty).mpr ⟨(h.channels e he).url,
        fun hfamily => ⟨(h.channels e he).project hfamily, (h.channels e he).host hfamily⟩⟩

/-! ## URLs of channels that were built

A route goes to a channel that was built. What its call has to want for is settled by the channel's
family. -/

/-- Where no list of regions is empty, a model that is named has a region. -/
theorem of_ne_nil_iff {regions : Vertex.Regions} (h : ∀ entry ∈ regions, entry.2 ≠ [])
    (model : String) : regions.of model ≠ [] ↔ model ∈ regions.map Prod.fst := by
  rw [Vertex.Regions.of]
  cases hlookup : regions.lookup model with
  | none => simpa using Json.notMem_of_lookup hlookup
  | some found =>
    have hmem := Json.mem_of_lookup hlookup
    exact ⟨fun _ => List.mem_map_of_mem hmem, fun _ => h _ hmem⟩

/-- In an accepted configuration no model is deployed nowhere, be the regions its own or built
in. -/
theorem regionsInForce_of_check (h : c.check parse = .ok ()) :
    ∀ entry ∈ c.regionsInForce, entry.2 ≠ [] := by
  rw [Config.regionsInForce]
  split
  · decide
  · exact checkRegions_ok_iff.mp (check_eq_ok.mp h).2.2

/-- **What a check accepts, and what that is good for**: with the channels that were built from an
accepted configuration, every call has a URL, but for a model with no region or no id at a provider
with regions. What such a call fails with says which of the two it is.

The check asks of each channel what its family makes a URL of, and building channels keeps what was
checked. A region and an id are left, which depend on the model of a call. -/
theorem accepted_channels_have_urls (parse : UrlParser) (empty : parse.RefusesEmpty)
    (c : Config) :
    (c.check parse = .ok () ↔ c.IsUsable parse) ∧
      ∀ (env : Environment) (channels : List Channel), c.check parse = .ok () →
        c.buildChannels env = .ok channels →
        ∀ channel ∈ channels, ∀ route : Route, route.channel = channel → ∀ choice : Nat,
          let a := Adaptor.init { family := channel.family, regions := c.regionsInForce }
          let model := route.actualModel
          let isDeployed := model ∈ c.regionsInForce.map Prod.fst
          ((∃ url, a.url choice route = .ok url) ↔
            (channel.family = .vertexClaude → isDeployed ∧ Vertex.HasId model)) ∧
            ∀ e, a.url choice route = .error e → channel.family = .vertexClaude ∧
              ((¬ isDeployed ∧ e = .unresolved (.noRegion model)) ∨
                isDeployed ∧ ¬ Vertex.HasId model ∧ e = .unresolved (.unsupported model)) := by
  refine ⟨check_ok_iff empty, ?_⟩
  intro env channels hchecked hbuilt channel hmem route hroute choice
  subst hroute
  have hdeployed := of_ne_nil_iff (regionsInForce_of_check hchecked) route.actualModel
  have hproject (hfamily : route.channel.family = .vertexClaude) :
      (route.channel.project.getD "").isEmpty = false := by
    obtain ⟨e, he, hsame, hpaid, -⟩ := exists_entry_of_mem hbuilt hmem
    rw [hpaid]
    exact project_of_checkEndpoint (endpoint_of_check hchecked e he) (hsame ▸ hfamily)
  refine ⟨?_, fun e he => ?_⟩
  · rw [Adaptor.exists_url_iff rfl choice hproject]
    exact imp_congr_right fun _ => and_congr hdeployed Vertex.exists_modelId_iff
  · rw [Adaptor.url, Adaptor.ensureReady_of_ready rfl] at he
    cases hfamily : route.channel.family with
    | openai | anthropic => simp [hfamily, Adaptor.init, bind, Except.bind, pure, Except.pure] at he
    | vertexClaude =>
      rw [hfamily] at he
      refine ⟨rfl, ?_⟩
      rw [← hdeployed, not_ne_iff]
      exact Vertex.url_error (hproject hfamily) he

/-- A channel with a URL, and one with regions: one of its models is deployed, another has no id,
and the third no region. -/
theorem deployed_model_has_url :
    let direct : ChannelEntry :=
      { id := "direct", name := none, family := .openai, baseUrl := "https://api.openai.com",
        apiKey := some "key", apiKeyVariable := none, project := none, models := ["gpt-4o"],
        mapping := [] }
    let regional : ChannelEntry :=
      { id := "regional", name := none, family := .vertexClaude, baseUrl := "host",
        apiKey := some "key", apiKeyVariable := none, project := some "billed",
        models := ["claude-x-20240101", "elsewhere"], mapping := [("fast", "undated")] }
    let c : Config :=
      { channels := [direct, regional]
        regions := [("claude-x-20240101", ["east"]), ("undated", ["east"])] }
    let a (channel : Channel) : Adaptor :=
      Adaptor.init { family := channel.family, regions := c.regionsInForce }
    let route (channel : Channel) (model : String) : Route :=
      { channel, model, protocol := .messages, stream := false, promptTokens := 0 }
    c.check Url.parse = .ok () ∧ c.IsUsable Url.parse ∧
      ∃ first second, c.buildChannels (fun _ => none) = .ok [first, second] ∧
        (∃ url, (a first).url 5 (route first "gpt-4o") = .ok url) ∧
        (∃ url, (a second).url 5 (route second "claude-x-20240101") = .ok url) ∧
        (∀ url, (a second).url 5 (route second "fast") ≠ .ok url) ∧
        ∀ e, (a second).url 5 (route second "elsewhere") = .error e →
          e = .unresolved (.noRegion "elsewhere") := by
  intro direct regional c a route
  -- The parser that runs refuses the empty text, by looking at it.
  have hempty : Url.parse.RefusesEmpty := fun scheme h =>
    nomatch (show Url.parse "" = .error "relative URL without a base" from rfl).symm.trans h
  have hchecked : c.check Url.parse = .ok () := ok_of_toOption (by decide +kernel)
  obtain ⟨husable, hall⟩ := accepted_channels_have_urls Url.parse hempty c
  obtain ⟨first, second, hbuilt, hfirst, hsecond⟩ :
      ∃ first second, c.buildChannels (fun _ => none) = .ok [first, second] ∧
        first = { id := "direct", family := .openai, baseUrl := "https://api.openai.com",
                  apiKey := "key", models := ["gpt-4o"] } ∧
        second = { id := "regional", family := .vertexClaude, baseUrl := "host", apiKey := "key",
                   project := some "billed", models := ["claude-x-20240101", "elsewhere"],
                   mapping := [("fast", "undated")] } := ⟨_, _, rfl, rfl, rfl⟩
  have hdirect := fun model => hall _ _ hchecked hbuilt first (by simp) (route first model) rfl 5
  have hregional := fun model =>
    hall _ _ hchecked hbuilt second (by simp) (route second model) rfl 5
  subst hfirst hsecond
  -- Each of the four models is a case of the theorem. The third has a region and no date in its
  -- name, the last one has no region.
  refine ⟨hchecked, husable.mp hchecked, _, _, hbuilt,
    (hdirect "gpt-4o").1.mpr fun hfamily => absurd hfamily (by decide),
    (hregional "claude-x-20240101").1.mpr fun _ => ⟨?_, ?_⟩, fun url hurl => ?_, fun e he => ?_⟩
  · decide +kernel
  · have hdigits : "20240101".toList.all Char.isDigit = true := rfl
    exact .inr ⟨"claude-x".toList, "20240101".toList, by decide +kernel, by decide, rfl,
      List.all_eq_true.mp hdigits⟩
  · obtain ⟨-, hnamed | ⟨name, date, hcut, -⟩⟩ := (hregional "fast").1.mp ⟨url, hurl⟩ rfl
    · exact absurd hnamed (by decide)
    · have hhyphen : '-' ∈ "undated".toList := hcut ▸ by simp
      exact absurd hhyphen (by decide)
  · obtain ⟨-, ⟨-, h⟩ | ⟨h, -⟩⟩ := (hregional "elsewhere").2 e he
    · exact h
    · exact absurd h (by decide +kernel)

end Config

end ModelRelay
