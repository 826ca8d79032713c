import ModelRelay.Proofs.Config.Keys

/-!
# Advertised models

The list of models is made once, when the relay starts; a channel is looked for anew with each call.
The list goes through all tables and drops what it has said, the search stops at the first channel
that knows the name. **A model is on the list if and only if a call for it finds a channel**
(`listed_iff_served`), and since either asks only whether a name is in a table, the order of a table
does not show.

Both sides are brought to the same words: that some channel `Serves` the model. The order of a table
is the order in which a program happens to go through it, and so it is not enough that one order
gives the right list. `Reorders` relates a channel to the same channel with its table in another
order, and search and list are shown not to see the difference.

What a name stands for is not asked. A table may map a name to a model that no provider has, or to
nothing, and the name is listed and served like any other; the call fails later, at the provider.
-/

set_option autoImplicit false

namespace ModelRelay

/-! ## Channels and the models they serve

A channel has a list of models, and a table of names for them. -/

namespace Channel

variable {a b : Channel} {model : String}

/-- A channel serves a model by its own name or by another. What the other name stands for does not
matter, nor whether it stands for anything. -/
def Serves (c : Channel) (model : String) : Prop :=
  model ∈ c.models ∨ model ∈ c.mapping.map Prod.fst

theorem supports_iff : a.supports model = true ↔ a.Serves model := by
  rw [supports, Bool.or_eq_true, List.contains_iff_mem, Serves]
  refine or_congr Iff.rfl ?_
  cases hlookup : a.mapping.lookup model with
  | none => simpa using Json.notMem_of_lookup hlookup
  | some _ => simpa using ⟨_, Json.mem_of_lookup hlookup⟩

/-- The same channel, whose table of names may be in another order. -/
def Reorders (a b : Channel) : Prop :=
  ∃ mapping, a.mapping.Perm mapping ∧ b = { a with mapping }

/-- The order of a table does not matter to which models are served. -/
theorem Reorders.serves_iff (h : a.Reorders b) : b.Serves model ↔ a.Serves model := by
  obtain ⟨mapping, hperm, rfl⟩ := h
  exact or_congr Iff.rfl (hperm.map Prod.fst).mem_iff.symm

/-- The first of some channels that serves a model. -/
def IsFirstFor (channels : List Channel) (model : String) (c : Channel) : Prop :=
  ∃ before after, channels = before ++ c :: after ∧ c.Serves model ∧
    ∀ other ∈ before, ¬ other.Serves model

end Channel

namespace Services

variable {channels others : List Channel} {model : String}

theorem channelFor_ok_iff {c : Channel} :
    channelFor channels model = .ok c ↔ Channel.IsFirstFor channels model c := by
  have hfound : channelFor channels model = .ok c ↔ channels.find? (·.supports model) = some c := by
    rw [channelFor]
    cases channels.find? (·.supports model) <;> simp
  rw [hfound, List.find?_eq_some_iff_append, Channel.IsFirstFor]
  simp only [Bool.not_eq_true', ← Bool.not_eq_true, Channel.supports_iff]
  constructor
  · rintro ⟨hserves, before, after, hcut, hbefore⟩
    exact ⟨before, after, hcut, hserves, hbefore⟩
  · rintro ⟨before, after, hcut, hserves, hbefore⟩
    exact ⟨hserves, before, after, hcut, hbefore⟩

theorem exists_channelFor_iff :
    (∃ c, channelFor channels model = .ok c) ↔ ∃ c ∈ channels, c.Serves model := by
  constructor
  · rintro ⟨c, hc⟩
    obtain ⟨before, after, rfl, hserves, -⟩ := channelFor_ok_iff.mp hc
    exact ⟨c, by simp, hserves⟩
  · rintro ⟨c, hc, hserves⟩
    have hsome : (channels.find? (·.supports model)).isSome = true :=
      List.find?_isSome.mpr ⟨c, hc, Channel.supports_iff.mpr hserves⟩
    obtain ⟨found, hfound⟩ := Option.isSome_iff_exists.mp hsome
    exact ⟨found, by rw [channelFor, hfound]⟩

/-- The order of tables decides nothing: the search ends at the same channel, or at none. -/
theorem channelFor_reorders (model : String)
    (h : List.Forall₂ Channel.Reorders channels others) :
    (∃ a b, a.Reorders b ∧ channelFor channels model = .ok a ∧ channelFor others model = .ok b) ∨
      ∃ e, channelFor channels model = .error e ∧ channelFor others model = .error e := by
  induction h with
  | nil => exact .inr ⟨_, rfl, rfl⟩
  | @cons a b channels others hab _ ih =>
    by_cases hserves : a.Serves model
    · have ha := Channel.supports_iff.mpr hserves
      have hb := Channel.supports_iff.mpr (hab.serves_iff.mpr hserves)
      exact .inl ⟨a, b, hab, by simp [channelFor, ha], by simp [channelFor, hb]⟩
    · have ha := Bool.eq_false_iff.mpr (mt Channel.supports_iff.mp hserves)
      have hb := Bool.eq_false_iff.mpr
        (mt Channel.supports_iff.mp (mt hab.serves_iff.mp hserves))
      simpa [channelFor, ha, hb] using ih

theorem exists_channelFor_reorders (model : String)
    (h : List.Forall₂ Channel.Reorders channels others) :
    (∃ b, channelFor others model = .ok b) ↔ ∃ a, channelFor channels model = .ok a := by
  rcases channelFor_reorders model h with ⟨a, b, -, ha, hb⟩ | ⟨e, ha, hb⟩
  · exact ⟨fun _ => ⟨a, ha⟩, fun _ => ⟨b, hb⟩⟩
  · simp [ha, hb]

end Services

/-! ## The list

Names are gathered from all channels, and each is kept once. -/

namespace Http

variable {names : List String}

theorem mem_distinct {name : String} : name ∈ distinct names ↔ name ∈ names := by
  have hfold : ∀ seen : List String,
      name ∈ names.foldl (fun seen name => seen.insert name) seen ↔ name ∈ seen ∨ name ∈ names := by
    induction names with
    | nil => simp
    | cons first rest ih =>
      intro seen
      rw [List.foldl_cons, ih, List.mem_insert_iff, List.mem_cons]
      tauto
  rw [distinct, List.mem_reverse]
  exact (hfold []).trans (by simp)

theorem nodup_distinct (names : List String) : (distinct names).Nodup := by
  have hfold : ∀ seen : List String, seen.Nodup →
      (names.foldl (fun seen name => seen.insert name) seen).Nodup := by
    induction names with
    | nil => exact fun _ => id
    | cons first rest ih => exact fun seen hseen => ih _ hseen.insert
  exact List.nodup_reverse.mpr (hfold [] List.nodup_nil)

/-- The ids in an answer that is a list of models. -/
def Response.listed (r : Response) : List String :=
  match r.payload with
  | .json (.object members) =>
    match members.lookup "data" with
    | some (.array entries) => entries.filterMap fun entry => (entry.get? "id").bind Json.string?
    | _ => []
  | _ => []

/-- The ids that a request is answered with. -/
def Handled.listed (h : Handled) : List String :=
  h.response.elim [] Response.listed

namespace Server

variable {s : Server} {r : Request}

theorem listed_listModels (s : Server) : s.listModels.listed = s.models := by
  show (s.models.map _).filterMap _ = s.models
  rw [List.filterMap_map]
  exact List.filterMap_some

theorem listed_handle (hmethod : r.method = "GET") (hpath : pathOf r.target = "/v1/models")
    (fresh : Fresh) (freshId : String) (uptime activeStreams : Nat)
    (reader : Delivery.Session.Caller) :
    (s.handle r fresh freshId uptime activeStreams reader).listed = s.models := by
  rw [handle, hpath]
  simp only [Endpoint.ofPath?, Endpoint.methods, hmethod]
  exact listed_listModels s

end Server

end Http

namespace Config

variable {c : Config} {env : Environment}

theorem mem_advertised {channels : List Channel} {model : String} :
    model ∈ advertised channels ↔ ∃ channel ∈ channels, channel.Serves model := by
  simp only [advertised, List.mem_flatMap, List.mem_append, Channel.Serves]

/-- The same channel as it is configured, whose table of names may be in another order. -/
def ChannelEntry.Reorders (a b : ChannelEntry) : Prop :=
  ∃ mapping, a.mapping.Perm mapping ∧ b = { a with mapping }

theorem ChannelEntry.Reorders.exists_channel {a b : ChannelEntry} (h : a.Reorders b)
    {channel : Channel} (hbuilt : a.toChannel env = .ok channel) :
    ∃ other, b.toChannel env = .ok other ∧ channel.Reorders other := by
  obtain ⟨mapping, hperm, rfl⟩ := h
  rw [toChannel] at hbuilt
  split at hbuilt
  · exact absurd hbuilt (by simp)
  · next key hkey =>
    obtain rfl := Except.ok.inj hbuilt
    have hother : ({ a with mapping } : ChannelEntry).key? env = some key := hkey
    exact ⟨_, by rw [toChannel, hother], mapping, hperm, rfl⟩

theorem exists_channels_of_reorders {entries others : List ChannelEntry}
    (h : List.Forall₂ ChannelEntry.Reorders entries others) {channels : List Channel}
    (hbuilt : List.Forall₂ (fun e channel => e.toChannel env = .ok channel) entries channels) :
    ∃ reordered, List.Forall₂ (fun e channel => e.toChannel env = .ok channel) others reordered ∧
      List.Forall₂ Channel.Reorders channels reordered := by
  induction h generalizing channels with
  | nil =>
    cases hbuilt
    exact ⟨[], .nil, .nil⟩
  | cons hentry _ ih =>
    cases hbuilt with
    | cons hfirst hrest =>
      obtain ⟨channel, hchannel, hreorders⟩ := hentry.exists_channel hfirst
      obtain ⟨reordered, hbuilt, hall⟩ := ih hrest
      exact ⟨channel :: reordered, .cons hchannel hbuilt, .cons hreorders hall⟩

theorem server_of_channels {channels : List Channel} (h : c.buildChannels env = .ok channels)
    (send : Post → Exchange) :
    ∃ s : Http.Server, c.server env send = .ok s ∧ s.models = Http.distinct (advertised channels) ∧
      s.dispatcher.services = .ofChannels channels := by
  refine ⟨_, by rw [server, h]; rfl, rfl, rfl⟩

/-- **A model is on the list, once, if and only if a call for it finds a channel**, and that is the
first one that serves it. Neither the list nor the search depends on the order of a table.

A channel serves a model that is in its list or is a name in its table, and exactly these are
listed. A table in another order has the same names, and each stands for the same model. -/
theorem listed_iff_served (c : Config) (env : Environment) (send : Post → Exchange)
    {s : Http.Server} (built : c.server env send = .ok s) :
    ∃ channels, c.buildChannels env = .ok channels ∧
      ∀ (model : String) (caller : Caller) (r : Http.Request) (fresh : Fresh) (freshId : String)
        (uptime activeStreams : Nat) (reader : Delivery.Session.Caller),
      r.method = "GET" → Http.pathOf r.target = "/v1/models" →
      let listed (s : Http.Server) :=
        (s.handle r fresh freshId uptime activeStreams reader).listed
      let found (s : Http.Server) := s.dispatcher.services.resolve model caller
      (model ∈ listed s ↔ ∃ channel, found s = .ok channel) ∧
        (model ∈ listed s → (listed s).count model = 1) ∧
        (∀ channel, found s = .ok channel ↔ Channel.IsFirstFor channels model channel) ∧
        ∀ entries, List.Forall₂ ChannelEntry.Reorders c.channels entries →
          ∃ s', { c with channels := entries }.server env send = .ok s' ∧
            (model ∈ listed s' ↔ model ∈ listed s) ∧
            ∀ channel, found s = .ok channel →
              ∃ other, channel.Reorders other ∧ found s' = .ok other := by
  obtain ⟨channels, hbuilt, -⟩ := exists_channels_of_server built
  obtain ⟨_, hserver, hmodels, hservices⟩ := server_of_channels hbuilt send
  obtain rfl := Except.ok.inj (hserver.symm.trans built)
  refine ⟨channels, hbuilt, ?_⟩
  intro model caller r fresh freshId uptime activeStreams reader hget hpath
  have hlisted : ∀ s : Http.Server,
      (s.handle r fresh freshId uptime activeStreams reader).listed = s.models :=
    fun s => Http.Server.listed_handle hget hpath fresh freshId uptime activeStreams reader
  -- What is listed and what is resolved are both functions of the channels.
  simp only [hlisted, hmodels, hservices, Services.ofChannels]
  refine ⟨?_, fun hmem => ?_, fun channel => Services.channelFor_ok_iff, fun entries hentries => ?_⟩
  · rw [Http.mem_distinct, mem_advertised, Services.exists_channelFor_iff]
  · exact List.count_eq_one_of_mem (Http.nodup_distinct _) hmem
  · -- Permuted tables build channels again, each with the same table in another order.
    obtain ⟨reordered, hreordered, hall⟩ :=
      exists_channels_of_reorders hentries (mapM_ok_iff.mp hbuilt)
    obtain ⟨s', hserver', hmodels', hservices'⟩ :=
      server_of_channels (c := { c with channels := entries }) (mapM_ok_iff.mpr hreordered) send
    refine ⟨s', hserver', ?_, fun channel hchannel => ?_⟩
    · rw [hmodels', Http.mem_distinct, Http.mem_distinct, mem_advertised, mem_advertised,
        ← Services.exists_channelFor_iff, ← Services.exists_channelFor_iff]
      exact Services.exists_channelFor_reorders model hall
    · rw [hservices']
      rcases Services.channelFor_reorders model hall with ⟨a, b, hab, ha, hb⟩ | ⟨e, ha, -⟩
      · obtain rfl := Except.ok.inj (ha.symm.trans hchannel)
        exact ⟨b, hab, hb⟩
      · exact nomatch ha.symm.trans hchannel

/-- A name that stands for nothing is on the list, and one that two channels have goes to the first
of them, in whatever order its table is gone through. -/
theorem empty_alias_is_listed :
    let first : ChannelEntry :=
      { id := "first", name := none, family := .openai, baseUrl := "http://first",
        apiKey := some "key", apiKeyVariable := none, project := none,
        models := ["small", "small"], mapping := [("blank", ""), ("big", "small")] }
    let second : ChannelEntry :=
      { first with id := "second", models := ["big"], mapping := [] }
    let c : Config := { channels := [first, second] }
    let entries := [{ first with mapping := [("big", "small"), ("blank", "")] }, second]
    let env : Environment := fun _ => none
    let send (_ : Post) : Exchange := .failed "refused"
    let r : Http.Request :=
      { method := "GET", target := "/v1/models", headers := [], body := ⟨#[]⟩ }
    let caller : Caller := { id := "tests", protocol := .completions }
    let listed (s : Http.Server) := (s.handle r ⟨"1", 0, 0⟩ "2" 0 0 {}).listed
    ∃ s s', c.server env send = .ok s ∧ List.Forall₂ ChannelEntry.Reorders c.channels entries ∧
      { c with channels := entries }.server env send = .ok s' ∧
      (listed s).count "blank" = 1 ∧ "blank" ∈ listed s' ∧ "huge" ∉ listed s ∧
      ∃ channel other, s.dispatcher.services.resolve "big" caller = .ok channel ∧
        channel.id = "first" ∧ s'.dispatcher.services.resolve "big" caller = .ok other ∧
        other.id = "first" := by
  intro first second c entries env send r caller listed
  obtain ⟨s, hserver⟩ : ∃ s, c.server env send = .ok s := ⟨_, rfl⟩
  have hentries : List.Forall₂ ChannelEntry.Reorders c.channels entries :=
    .cons ⟨_, .swap .., rfl⟩ (.cons ⟨_, .refl _, rfl⟩ .nil)
  have hpath : Http.pathOf r.target = "/v1/models" := by decide +kernel
  obtain ⟨channels, hbuilt, hall⟩ := listed_iff_served c env send hserver
  obtain ⟨hblank, honce, -, hother⟩ :=
    hall "blank" caller r ⟨"1", 0, 0⟩ "2" 0 0 {} rfl hpath
  obtain ⟨s', hserver', hblank', -⟩ := hother entries hentries
  obtain ⟨hhuge, -⟩ := hall "huge" caller r ⟨"1", 0, 0⟩ "2" 0 0 {} rfl hpath
  obtain ⟨-, -, -, hbig⟩ := hall "big" caller r ⟨"1", 0, 0⟩ "2" 0 0 {} rfl hpath
  obtain ⟨s'', hserver'', -, hfound⟩ := hbig entries hentries
  obtain rfl := Except.ok.inj (hserver'.symm.trans hserver'')
  obtain rfl := Except.ok.inj ((show c.server env send = .ok _ from rfl).symm.trans hserver)
  -- The alias stands for no name of a model, and is served all the same.
  have hmem := hblank.mpr ⟨_, rfl⟩
  obtain ⟨other, ⟨_, -, rfl⟩, hresolved⟩ := hfound _ rfl
  refine ⟨_, s', hserver, hentries, hserver', honce hmem, hblank'.mpr hmem, fun h => ?_, _, _, rfl,
    rfl, hresolved, rfl⟩
  obtain ⟨_, h⟩ := hhuge.mp h
  nomatch h

end Config

end ModelRelay
