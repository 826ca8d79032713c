import ModelRelay.Proofs.Provider.Failing
import ModelRelay.Proofs.Relay.Reply

/-!
# Failures and their status

**No failure is passed off as a success** (`isFailure_of_reply`): a call that fails before it is
answered gets a status outside the 200s, whatever its provider answered, unless the parties who
resolve channels and reserve quota themselves ask for such a status. It is shown for every part of
the relay that can fail.

`refusals_are_told` puts this together with what the two readers of a refusal tell of it. The three
ways for the body of an answer to end are kept apart there, because the readers agree on one of them
only, and because one of the readers has no limit of time: on a body that falls silent it tells
nothing, and its caller waits.

The proof goes along the parts. `OnlyFails IsFailure` says of a result that it fails with such a
status if it fails at all; it is closed under sequencing, so each part has a lemma that names its
failures and no more. At the end `Relayed` lists the ways of a call, and each way that fails does so
by the failure of one part.

What a failure says in its body, and in which envelope, is in `Http.Envelope`.
-/

set_option autoImplicit false

namespace ModelRelay

/-! ## The status of a failure

A failure's status is a function of its kind. Only one kind can have a status that comes from
outside, and `RelayError.status` replaces it where no answer can have it. -/

namespace RelayError

/-- The status of a failure says that it is one. -/
def IsFailure (e : RelayError) : Prop :=
  e.status < 200 ∨ 300 ≤ e.status

variable (provider : String)

@[simp] theorem isFailure_invalid (fault : RequestFault) : (invalid fault).IsFailure :=
  .inr (by simp [status])

@[simp] theorem isFailure_unreachable (fault : TransportFault) :
    (unreachable provider fault).IsFailure :=
  .inr (by rw [status]; split <;> omega)

@[simp] theorem isFailure_undecodable (fault : DecodeFault) :
    (undecodable provider fault).IsFailure :=
  .inr (by simp [status])

@[simp] theorem isFailure_unresolved (fault : RouteFault) : (unresolved fault).IsFailure :=
  .inr (by simp [status])

@[simp] theorem isFailure_internal (fault : InternalFault) : (internal fault).IsFailure :=
  .inr (by simp [status])

/-- A refusal keeps the provider's status, unless no answer can have it. -/
theorem isFailure_refused {s : Nat} (message : String) (kind : Option String)
    (h : s < 200 ∨ 300 ≤ s) : (refused provider s message kind).IsFailure := by
  rw [IsFailure, status]
  split
  · exact h
  · exact .inr (by omega)

end RelayError

open RelayError

/-! ## What the provider answered

An answer outside the 200s is the only one that is refused by its status, so the status that a
refusal keeps is outside them too. -/

namespace Provider.Answer

variable {a : Answer}

theorem outside_of_not_isSuccess (h : a.isSuccess = false) : a.status < 200 ∨ 300 ≤ a.status := by
  rw [isSuccess, Bool.and_eq_false_iff] at h
  simpa using h

/-- A body that is lost, an answer that is refused, an error that is told with the status of a
success, and JSON that is not understood: all four are failures. -/
theorem isFailure_readJson (provider : String) (a : Answer) :
    OnlyFails IsFailure (a.readJson provider) :=
  onlyFails_readJson (fun _ _ => isFailure_unreachable _ _)
    (fun hstatus _ _ => isFailure_refused _ _ _ (outside_of_not_isSuccess hstatus))
    (fun _ _ => isFailure_refused _ _ _ (.inr (by omega)))
    (fun _ => isFailure_undecodable _ _)

theorem isFailure_ensureSuccess {provider : String} {result : Except RelayError Answer}
    (h : a.ensureSuccess provider = some result) : OnlyFails IsFailure result :=
  onlyFails_ensureSuccess
    (fun hstatus _ _ => isFailure_refused _ _ _ (outside_of_not_isSuccess hstatus)) h

end Provider.Answer

/-! ## What the relay does itself

These parts fail with a status of their own choice, so nothing is asked of the provider here. -/

theorem Http.Headers.isFailure_setAll (pairs : List (String × String)) (headers : Http.Headers) :
    OnlyFails IsFailure (setAll pairs headers).2 := by
  induction pairs generalizing headers with
  | nil => exact .ok ()
  | cons pair rest ih =>
    rw [setAll, valueOf]
    by_cases hforbidden : pair.2.toUTF8.data.toList.any isForbidden = true
    · rw [if_pos hforbidden]
      exact .error (isFailure_invalid _)
    · rw [if_neg hforbidden]
      exact ih _

namespace Adaptor

variable (a : Adaptor)

theorem isFailure_ensureReady : OnlyFails IsFailure a.ensureReady :=
  a.onlyFails_ensureReady isFailure_internal

theorem isFailure_body (protocol : Protocol) (request : Option Chat.Request) :
    OnlyFails IsFailure (a.body protocol request) := by
  refine .bind a.isFailure_ensureReady fun _ => ?_
  cases request with
  | none => exact .error (isFailure_invalid _)
  | some request => cases hf : a.family <;> exact .ok _

/-- For an address the configuration can be at fault, with no region, no model or no project. -/
theorem isFailure_url (choice : Nat) (route : Route) :
    OnlyFails IsFailure (a.url choice route) := by
  refine .bind a.isFailure_ensureReady fun _ => ?_
  cases hf : a.family with
  | openai | anthropic => exact .ok _
  | vertexClaude =>
    refine .bind ?_ fun region => .bind ?_ fun id => ?_
    · rw [Vertex.Regions.pick]
      split
      · exact .ok _
      · exact .error (isFailure_unresolved _)
    · rw [Vertex.modelId]
      split
      · exact .ok _
      · exact .ok _
      · exact .error (isFailure_unresolved _)
    · cases route.channel.project.filter (!·.isEmpty) with
      | none => exact .error (isFailure_unresolved _)
      | some project => exact .ok _

theorem isFailure_headers (inbound : Http.Headers) (route : Route) :
    OnlyFails IsFailure (a.headers inbound route) := by
  have hadded : OnlyFails IsFailure (a.addHeaders inbound route []).2 := by
    rw [addHeaders]
    split
    · next e he => exact .error (a.isFailure_ensureReady e he)
    · exact Http.Headers.isFailure_setAll _ _
  exact hadded.map _

theorem isFailure_pinned (route : Route) (text : String) :
    OnlyFails IsFailure (a.pinned route text) := by
  rw [pinned]
  split
  · refine .bind (.mapError fun _ _ => isFailure_internal _) fun value => ?_
    cases value with
    | object members => exact .ok _
    | _ => exact .error (isFailure_internal _)
  · exact .ok _

/-- What comes of a whole answer can fail by its body or by what is in it. -/
theorem isFailure_understand (route : Route) (fresh : Fresh) (answer : Provider.Answer) :
    OnlyFails IsFailure (a.understand route fresh answer) :=
  .bind (answer.isFailure_readJson _) fun body =>
    a.onlyFails_outcomeOf route fresh body (fun _ => isFailure_undecodable _ _)
      fun _ => isFailure_internal _

end Adaptor

/-! ## Calls

The parties who resolve channels and reserve quota are parameters. Of their failures nothing is
known, which is why the statement names them as the exception. -/

namespace Dispatcher

variable (d : Dispatcher) {caller : Caller} {fresh : Fresh} {reader : Delivery.Session.Caller}

theorem isFailure_settle (body : StoredBody) : OnlyFails IsFailure body.settle :=
  .bind (.mapError fun _ _ => isFailure_invalid _) fun _ => .ok _

theorem isFailure_accept (request : Chat.Request) : OnlyFails IsFailure request.accept := by
  rw [Chat.Request.accept]
  split
  · exact .error (isFailure_invalid _)
  · exact .ok ()

theorem isFailure_prepare (route : Route) (request : Chat.Request) :
    OnlyFails IsFailure (d.prepare caller route request fresh) :=
  .bind (Adaptor.isFailure_body _ _ _) fun _ => .bind (Adaptor.isFailure_url _ _ _) fun _ =>
    .bind (Adaptor.isFailure_headers _ _ _) fun _ =>
      .bind (Adaptor.isFailure_pinned _ _ _) fun _ => .ok _

/-- A call that fails before it is answered is answered as a failure, unless a party that it asks
for a channel or for quota fails with the status of a success. -/
theorem isFailure_of_reply {body : StoredBody} {e : RelayError}
    (h : (d.relay caller body fresh reader).reply = .error e) :
    e.IsFailure ∨ ∃ request replaced, body.settle = .ok (request, replaced) ∧
      (d.services.resolve request.model caller = .error e ∨
        d.services.reserve caller (Chat.Tokens.ofPrompt request) = .error e) := by
  cases hbody : body.settle with
  | error e' =>
    -- Nothing is asked for a body that is not read.
    rw [relay_unreadable hbody] at h
    exact .inl (Except.error.inj h ▸ isFailure_settle body e' hbody)
  | ok settled =>
    obtain ⟨request, replaced⟩ := settled
    have hrelayed : Relayed d caller request fresh reader _ _ := relayed_of_settle hbody
    rw [h] at hrelayed
    -- The steps of the call play no part in its status.
    generalize (d.relay caller body fresh reader).effects = effects at hrelayed
    cases hrelayed with
    | invalid invalid => exact .inl (isFailure_accept request e invalid)
    | unresolved _ unresolved => exact .inr ⟨request, replaced, rfl, .inl unresolved⟩
    | denied _ _ denied => exact .inr ⟨request, replaced, rfl, .inr denied⟩
    | unprepared _ unprepared => exact .inl (d.isFailure_prepare _ request e unprepared)
    | unanswered _ unanswered =>
      exact .inl (Exchange.onlyFails_answer (isFailure_unreachable _) _ e unanswered)
    | rejected _ _ _ rejected =>
      exact .inl (Provider.Answer.isFailure_ensureSuccess rejected e rfl)
    | misunderstood _ _ _ misunderstood =>
      exact .inl (Adaptor.isFailure_understand _ _ fresh _ e misunderstood)

/-- **Both readers tell the same of an answer outside the 200s if and only if its body arrived
whole**: a refusal with the answer's status, and with what the body says. Of a body that broke off
one reader tells that it was lost, and the other no more than the status. On a body that falls
silent they differ further: one gives it up when the time for the call is over, and tells that it
was lost; the other has no time to go by, and tells nothing. No call that fails before it is
answered is answered with a status in the 200s, unless the party that resolves channels or the one
that reserves quota fails with such a status itself.

That the readers differ comes of the order in which they look: the one takes the body first and the
status then, so that a lost body hides the status from it; the other goes by the status, and takes
of the body what it gets. -/
theorem refusals_are_told (d : Dispatcher) :
    (∀ (provider : String) (a : Provider.Answer), a.isSuccess = false →
      (a.ending = .complete → ∃ message kind,
        a.readJson provider = .error (.refused provider a.status message kind) ∧
        a.ensureSuccess provider = some (.error (.refused provider a.status message kind)) ∧
        Provider.Describes provider a.status a.bytes message kind ∧
        (¬ Provider.HasEnvelope a.bytes → message ≠ "")) ∧
      (∀ detail, a.ending = .broken detail →
        a.readJson provider = .error (.unreachable provider (.bodyLost detail)) ∧
        a.ensureSuccess provider = some (.error (.refused provider a.status
          (provider ++ " returned status " ++ a.status.repr) none))) ∧
      (a.ending = .silent →
        a.readJson provider = .error (.unreachable provider (.bodyLost "operation timed out")) ∧
        a.ensureSuccess provider = none)) ∧
    ∀ (caller : Caller) (body : StoredBody) (fresh : Fresh) (reader : Delivery.Session.Caller)
      (e : RelayError), (d.relay caller body fresh reader).reply = .error e →
      e.status < 200 ∨ 300 ≤ e.status ∨
        ∃ request replaced, body.settle = .ok (request, replaced) ∧
          (d.services.resolve request.model caller = .error e ∨
            d.services.reserve caller (Chat.Tokens.ofPrompt request) = .error e) := by
  refine ⟨fun provider a hstatus => ⟨fun hwhole => ?_, fun detail hbroken => ?_, fun hsilent => ?_⟩,
    fun caller body fresh reader e h => ?_⟩
  · obtain ⟨message, kind, hrefusal, htold⟩ := Provider.exists_describes provider a.status a.bytes
    obtain ⟨hread, hensure⟩ := Provider.Answer.refused_of_complete provider hstatus hwhole
    rw [hrefusal] at hread hensure
    exact ⟨message, kind, hread, hensure, htold, htold.message_ne_empty⟩
  · exact Provider.Answer.refused_of_broken provider hstatus hbroken
  · exact Provider.Answer.refused_of_silent provider hstatus hsilent
  · exact or_assoc.mp (d.isFailure_of_reply h)

/-- A provider that is busy says so to both readers, and to the caller of a call. -/
theorem busy_is_told :
    let a : Provider.Answer := { status := 503, body := " busy\n".toUTF8 }
    let overloaded := withExchange .openai (.answered a)
    let body := StoredBody.ofText
      "\x7b\"model\": \"small\", \"messages\": [\x7b\"role\": \"user\"\x7d]\x7d"
    let e := RelayError.refused "openai" 503 "busy" none
    a.readJson "openai" = .error e ∧ a.ensureSuccess "openai" = some (.error e) ∧
      (overloaded.relay ⟨"tests", "tests", "", [], .completions⟩ body ⟨"1", 0, 0⟩ {}).reply
        = .error e ∧
      (e.status < 200 ∨ 300 ≤ e.status ∨ ∃ request replaced,
        body.settle = .ok (request, replaced) ∧
          (overloaded.services.resolve request.model ⟨"tests", "tests", "", [], .completions⟩
              = .error e ∨
            overloaded.services.reserve ⟨"tests", "tests", "", [], .completions⟩
              (Chat.Tokens.ofPrompt request) = .error e)) := by
  intro a overloaded body e
  obtain ⟨htold, hstatus⟩ := refusals_are_told overloaded
  obtain ⟨message, kind, hread, hensure, -⟩ := (htold "openai" a rfl).1 rfl
  have hbusy : failureOf? (a.readJson "openai") = some e := by decide +kernel
  have hreply : failureOf? (overloaded.relay ⟨"tests", "tests", "", [], .completions⟩ body
      ⟨"1", 0, 0⟩ {}).reply = some e := by
    decide +kernel
  have hsame : RelayError.refused "openai" a.status message kind = e :=
    Except.error.inj (hread.symm.trans (of_failureOf? hbusy))
  rw [hsame] at hread hensure
  exact ⟨hread, hensure, of_failureOf? hreply, hstatus _ body _ _ e (of_failureOf? hreply)⟩

/-- The same refusal is told two ways if the connection breaks off behind its first byte, and
neither tells what that byte was. -/
theorem broken_refusal_is_told_two_ways :
    let a : Provider.Answer :=
      { status := 500, body := "x".toUTF8, ending := .broken "connection reset" }
    a.isSuccess = false ∧
      a.readJson "openai" = .error (.unreachable "openai" (.bodyLost "connection reset")) ∧
      a.ensureSuccess "openai"
        = some (.error (.refused "openai" 500 "openai returned status 500" none)) ∧
      ¬ ∃ message kind, a.readJson "openai" = .error (.refused "openai" 500 message kind) := by
  intro a
  have hread : a.readJson "openai"
      = .error (.unreachable "openai" (.bodyLost "connection reset")) := rfl
  have hmessage : "openai" ++ " returned status " ++ (500 : Nat).repr
      = "openai returned status 500" := by
    decide +kernel
  refine ⟨rfl, hread, ?_, ?_⟩
  · rw [← hmessage]
    exact (Provider.Answer.refused_of_broken "openai" rfl rfl).2
  · rintro ⟨message, kind, h⟩
    exact absurd (hread.symm.trans h) (by simp)

end Dispatcher

end ModelRelay
