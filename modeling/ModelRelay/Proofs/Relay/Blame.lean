import ModelRelay.Proofs.Provider.Failing
import ModelRelay.Proofs.Relay.Callers

/-!
# Who is blamed for a failure

A failure that blames the caller is an invalid request. Once a request is accepted, **there is one
way left to such a failure**: the channel that was found has a key that no header can hold, and the
call had come as far as its headers (`prepare_invalid_iff`). Whatever the provider does, and
whatever else is configured, is told as something else.

Both directions are shown. From a failure of this kind to the key: every other part of the relay
spares the caller (`RelayError.SparesCaller`), so the failure must come of the headers, and of these
only the one with the key can be at fault (`Adaptor.headers_result`). All others have values that
are fixed in the code, or a version that the caller sent, and what was read as a text header can be
written as one (`allows_of_text?`). From the key to the failure: the headers are set in their order,
and the first that is not allowed ends it (`setAll_error`).

For fixed channels the statement is about the reply to a call (`reply_invalid_iff`). Parties who
resolve channels in other ways may fail as they like.
-/

set_option autoImplicit false

namespace ModelRelay

open Delivery

/-! ## Values of headers

Which bytes a header can hold is one condition, `isForbidden`. Reading a header as text has another
one, which implies it. -/

namespace Http.Headers

/-- A text that a header can hold. -/
def Allows (value : String) : Prop :=
  value.toUTF8.data.toList.any isForbidden = false

instance (value : String) : Decidable (Allows value) :=
  inferInstanceAs (Decidable (_ = _))

/-- A value is allowed exactly if both of its parts are. -/
theorem allows_append {s t : String} : Allows (s ++ t) ↔ Allows s ∧ Allows t := by
  rw [Allows, Allows, Allows, Utf8.toList_toUTF8, Utf8.toList_toUTF8, Utf8.toList_toUTF8,
    String.toList_append, List.flatMap_append, List.any_append, Bool.or_eq_false_iff]

theorem lt_of_isPlain {b : UInt8} (h : isPlain b = true) : b < 0x80 := by
  grind [isPlain]

theorem isForbidden_of_isPlain {b : UInt8} (h : isPlain b = true) : isForbidden b = false := by
  grind [isPlain, isForbidden]

/-- A value that was read as text can be written as a value. -/
theorem allows_of_text? {h : Headers} {name value : String} (hvalue : h.text? name = some value) :
    Allows value := by
  rw [text?] at hvalue
  split at hvalue
  · next bytes hbytes =>
    split_ifs at hvalue with hplain
    rw [List.all_eq_true] at hplain
    obtain ⟨s, hread, hs⟩ := Utf8.exists_strict?_of_ascii fun b hb => lt_of_isPlain (hplain b hb)
    obtain rfl := Option.some.inj (hread.symm.trans hvalue)
    rw [Allows, hs, List.any_eq_false]
    intro b hb
    rw [isForbidden_of_isPlain (hplain b hb)]
    exact Bool.false_ne_true
  · exact absurd hvalue (by simp)

theorem allows_of_nonempty? {h : Headers} {name value : String}
    (hvalue : h.nonempty? name = some value) : Allows value :=
  allows_of_text? (Option.filter_eq_some_iff.mp hvalue).1

/-- Setting headers fails at the first whose value is not allowed. -/
theorem setAll_error {pairs : List (String × String)} {headers : Headers} :
    (setAll pairs headers).2 = match pairs.find? fun pair => ¬ Allows pair.2 with
      | some pair => .error (.invalid (.header pair.1))
      | none => .ok () := by
  induction pairs generalizing headers with
  | nil => rfl
  | cons pair rest ih =>
    obtain ⟨name, value⟩ := pair
    rw [setAll, valueOf, List.find?_cons]
    by_cases hallowed : Allows value
    · rw [if_neg (Bool.eq_false_iff.mp hallowed)]
      simp only [hallowed, not_true_eq_false, decide_false]
      exact ih
    · rw [if_pos (Bool.not_eq_false _ ▸ hallowed)]
      simp only [hallowed, not_false_eq_true, decide_true]

end Http.Headers

/-! ## Failures that spare the caller

An address can be wanting and a body can fail to be read anew, and both are told as failures of the
relay or of its configuration. -/

/-- A failure that does not say that the caller's request is at fault. -/
def RelayError.SparesCaller : RelayError → Prop
  | .invalid _ => False
  | _ => True

open RelayError (Follows SparesCaller)

theorem RelayError.follows_sparesCaller (provider : String) : Follows provider SparesCaller :=
  ⟨fun _ _ _ => trivial, fun _ => trivial, fun _ => trivial, fun _ => trivial, fun _ => trivial,
    fun _ => trivial⟩

open RelayError (follows_sparesCaller)

namespace Adaptor

variable (a : Adaptor)

theorem spares_url (choice : Nat) (route : Route) :
    OnlyFails SparesCaller (a.url choice route) := by
  refine .bind (a.onlyFails_ensureReady (follows_sparesCaller a.provider).internal) fun _ => ?_
  cases a.family with
  | openai | anthropic => exact .ok _
  | vertexClaude =>
    refine .bind ?_ fun region => .bind ?_ fun id => ?_
    · rw [Vertex.Regions.pick]
      split
      · exact .ok _
      · exact .error trivial
    · rw [Vertex.modelId]
      split
      · exact .ok _
      · exact .ok _
      · exact .error trivial
    · cases route.channel.project.filter (!·.isEmpty) with
      | none => exact .error trivial
      | some project => exact .ok _

theorem spares_pinned (route : Route) (text : String) :
    OnlyFails SparesCaller (a.pinned route text) := by
  rw [pinned]
  split
  · refine .bind (.mapError fun _ _ => trivial) fun value => ?_
    cases value with
    | object members => exact .ok _
    | _ => exact .error trivial
  · exact .ok _

end Adaptor

/-! ## The header that is at fault

The headers of a call are those that all families have and those of its family. The key is in one of
them, under a name that depends on the family. -/

/-- The header that the key of a channel goes into. -/
def Family.keyHeader : Family → String
  | .openai | .vertexClaude => "authorization"
  | .anthropic => "x-api-key"

namespace Adaptor

open Http.Headers (Allows)

variable {a : Adaptor} {route : Route}

theorem allows_accepted (stream : Bool) : Allows (accepted stream) := by
  cases stream <;> decide +kernel

/-- A version is the caller's, which was read, or the default. -/
theorem allows_version (inbound : Http.Headers) :
    Allows ((inbound.nonempty? "anthropic-version").getD defaultVersion) := by
  cases hversion : inbound.nonempty? "anthropic-version" with
  | none => decide +kernel
  | some version => exact Http.Headers.allows_of_nonempty? hversion

/-- Of the headers of a call only the one with the key can be at fault. -/
theorem headers_result (hready : a.ready = true) (inbound : Http.Headers) :
    (a.addHeaders inbound route []).2 = if Allows route.channel.apiKey then .ok ()
      else .error (.invalid (.header a.family.keyHeader)) := by
  have htype : Allows "application/json" := by decide +kernel
  have hbearer : Allows "Bearer " := by decide +kernel
  have hbeta : Allows "messages-2023-12-15" := by decide +kernel
  have haccepted := allows_accepted route.stream
  have hversion := allows_version inbound
  rw [addHeaders, ensureReady_of_ready hready]
  dsimp only
  rw [Http.Headers.setAll_error]
  cases a.family with
  | openai | vertexClaude =>
    by_cases hkey : Allows route.channel.apiKey <;>
      simp [familyHeaders, Family.keyHeader, Http.Headers.allows_append, htype, haccepted, hbearer,
        hkey]
  | anthropic =>
    by_cases hkey : Allows route.channel.apiKey <;>
      simp [familyHeaders, Family.keyHeader, htype, haccepted, hversion, hbeta, hkey]

theorem headers_eq_map (a : Adaptor) (inbound : Http.Headers) (route : Route) :
    a.headers inbound route
      = (a.addHeaders inbound route []).2.map fun _ => (a.addHeaders inbound route []).1 := rfl

theorem headers_of_allows (hready : a.ready = true) (inbound : Http.Headers)
    (hkey : Allows route.channel.apiKey) :
    a.headers inbound route = .ok (a.addHeaders inbound route []).1 := by
  have hresult : (a.addHeaders inbound route []).2 = _ := headers_result hready inbound
  rw [if_pos hkey] at hresult
  rw [headers_eq_map, hresult]
  rfl

/-- With a key that no header can hold a call fails, and the header that is named is the one with
the key. -/
theorem headers_of_not_allows (hready : a.ready = true) (inbound : Http.Headers)
    (hkey : ¬ Allows route.channel.apiKey) :
    a.headers inbound route = .error (.invalid (.header a.family.keyHeader)) := by
  have hresult : (a.addHeaders inbound route []).2 = _ := headers_result hready inbound
  rw [if_neg hkey] at hresult
  rw [headers_eq_map, hresult]
  rfl

end Adaptor

namespace Dispatcher

open Http.Headers (Allows)

variable {d : Dispatcher} {caller : Caller} {request : Chat.Request} {fresh : Fresh}
  {reader : Session.Caller}

/-- **A call is refused as invalid only for the key of its channel**, and only if it had a URL. -/
theorem prepare_invalid_iff {route : Route} {fault : RequestFault} :
    d.prepare caller route request fresh = .error (.invalid fault) ↔
      (∃ url, (d.adaptor route).url fresh.choice route = .ok url) ∧
        ¬ Allows route.channel.apiKey ∧ fault = .header route.channel.family.keyHeader := by
  rw [prepare, Adaptor.body_of_ready rfl]
  -- The address is put together before the headers are, so a call that has none never comes to its
  -- key.
  cases hurl : (d.adaptor route).url fresh.choice route with
  | error e =>
    -- A call without a URL fails for want of one.
    have hspares := (d.adaptor route).spares_url _ _ e hurl
    constructor
    · intro h
      obtain rfl := Except.error.inj h
      exact hspares.elim
    · rintro ⟨⟨url, hok⟩, -⟩
      exact absurd hok (by simp)
  | ok url =>
  by_cases hkey : Allows route.channel.apiKey
  · rw [Adaptor.headers_of_allows rfl caller.headers hkey]
    constructor
    · intro h
      obtain hpinned | ⟨text, -, hdone⟩ :=
        error_of_bind (show (d.adaptor route).pinned route _ >>= _ = _ from h)
      · exact ((d.adaptor route).spares_pinned _ _ _ hpinned).elim
      · exact absurd hdone (by simp [pure, Except.pure])
    · rintro ⟨-, hforbidden, -⟩
      exact absurd hkey hforbidden
  · rw [Adaptor.headers_of_not_allows rfl caller.headers hkey]
    constructor
    · intro h
      obtain rfl := RelayError.invalid.inj (Except.error.inj h)
      exact ⟨⟨url, rfl⟩, hkey, rfl⟩
    · rintro ⟨-, -, rfl⟩
      rfl

theorem spares_channelFor (channels : List Channel) (model : String) :
    OnlyFails SparesCaller (Services.channelFor channels model) := by
  rw [Services.channelFor]
  split
  · exact .ok _
  · exact .error trivial

/-- A call that fails was stopped before it went out, or fails in one of the ways that follow a
call. -/
theorem Relayed.stopped_or_follows {effects : List Effect} {e : RelayError}
    (h : Relayed d caller request fresh reader effects (.error e)) :
    d.outgoing caller request fresh = .error e ∨
      ∃ channel post, Posts d caller request fresh channel post ∧
        ∀ P, Follows channel.family.name P → P e := by
  cases h with
  | invalid invalid => exact .inl (by rw [Dispatcher.outgoing, invalid]; rfl)
  | unresolved valid unresolved => exact .inl (by rw [Dispatcher.outgoing, valid, unresolved]; rfl)
  | denied valid resolved denied =>
    exact .inl (by rw [Dispatcher.outgoing, valid, resolved, denied]; rfl)
  | unprepared admits unprepared =>
    rw [Dispatcher.outgoing, admits.valid, admits.resolved, admits.reserved]
    exact .inl unprepared
  | unanswered posts unanswered =>
    exact .inr ⟨_, _, posts, fun _ hP => Exchange.onlyFails_answer hP.unreachable _ _ unanswered⟩
  | rejected posts _ _ rejected =>
    refine .inr ⟨_, _, posts, fun P hP => ?_⟩
    exact Provider.Answer.onlyFails_ensureSuccess (fun _ _ _ => hP.refused _ _ _) rejected _ rfl
  | misunderstood posts _ _ misunderstood =>
    refine .inr ⟨_, _, posts, fun P hP => ?_⟩
    exact (d.adaptor (routeOf caller request _)).onlyFails_understand hP _ _ _ _ misunderstood

/-- **An accepted request is called invalid only for the key of its channel.** -/
theorem reply_invalid_iff {channels : List Channel} (hchannels : d.services = .ofChannels channels)
    {body : StoredBody} {replaced : Option StoredBody}
    (hsettled : body.settle = .ok (request, replaced)) (haccepted : request.accept = .ok ())
    {fault : RequestFault} :
    (d.relay caller body fresh reader).reply = .error (.invalid fault) ↔
      ∃ channel, Services.channelFor channels request.model = .ok channel ∧
        (∃ url, (d.adaptor (routeOf caller request channel)).url fresh.choice
          (routeOf caller request channel) = .ok url) ∧
        ¬ Allows channel.apiKey ∧ fault = .header channel.family.keyHeader := by
  constructor
  · intro h
    have hrelayed : Relayed d caller request fresh reader _ _ := relayed_of_settle hsettled
    rw [h] at hrelayed
    obtain hout | ⟨_, _, -, hfollows⟩ := hrelayed.stopped_or_follows
    · rw [outgoing_ofChannels hchannels, haccepted] at hout
      obtain hchannel | ⟨channel, hchannel, hprepare⟩ :=
        error_of_bind (show Services.channelFor channels request.model >>= _ = _ from hout)
      · exact (spares_channelFor channels _ _ hchannel).elim
      · exact ⟨channel, hchannel, prepare_invalid_iff.mp hprepare⟩
    · exact (hfollows _ (follows_sparesCaller _)).elim
  · rintro ⟨channel, hchannel, hurl, hkey, rfl⟩
    have hout : d.outgoing caller request fresh
        = .error (.invalid (.header channel.family.keyHeader)) := by
      rw [outgoing_ofChannels hchannels, haccepted, hchannel]
      exact prepare_invalid_iff.mpr ⟨hurl, hkey, rfl⟩
    exact (stopped_of_outgoing reader hsettled hout).2

end Dispatcher

end ModelRelay
