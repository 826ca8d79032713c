import ModelRelay.Proofs.Delivery.Failing
import ModelRelay.Proofs.Provider.Refusals
import ModelRelay.Relay.Plan

/-!
# How a provider's answer can fail a call

Whatever a provider answers, a call fails in one of six ways only (`Follows`), and where the failure
names a provider it is this one: `onlyFails_respond`, for whole answers and for streams. What holds
of those six holds of every call that has its answer.

`Follows` takes a property and asks for it once for each of the six, so that a statement about
failures is proved by saying what it comes to in six cases, and never by going through the decoders
again. The decoders are gone through here, each event of each family once. Not among the six are the
failures that a caller could be blamed for, or a configuration: those come before there is an
answer.
-/

set_option autoImplicit false

namespace ModelRelay

open Delivery

/-- A property of all that an answer of a provider can lead to. -/
structure RelayError.Follows (provider : String) (P : RelayError → Prop) : Prop where
  refused : ∀ status message kind, P (.refused provider status message kind)
  unreachable : ∀ fault, P (.unreachable provider fault)
  undecodable : ∀ fault, P (.undecodable provider fault)
  stream : ∀ fault, P (.stream fault)
  cancelled : ∀ fault, P (.cancelled fault)
  internal : ∀ fault, P (.internal fault)

open RelayError (Follows)

variable {P : RelayError → Prop} {provider : String}

namespace Provider

namespace Answer

/-- A body that is read fails by being lost, refused or not understood. -/
theorem onlyFails_readJson_of_follows (hP : Follows provider P) (a : Answer) :
    OnlyFails P (a.readJson provider) :=
  onlyFails_readJson (fun _ _ => hP.unreachable _) (fun _ _ _ => hP.refused _ _ _)
    (fun _ _ => hP.refused _ _ _) (fun _ => hP.undecodable _)

end Answer

end Provider

namespace OpenAi

/-- A chunk fails by telling of an error or by not being understood. -/
theorem onlyFails_decodeEvent (hP : Follows OpenAi.provider P) (e : Sse.Event) :
    OnlyFails P (decodeEvent e) := by
  rw [decodeEvent]
  dsimp only
  split
  · exact .ok _
  split
  · exact .ok _
  refine .bind (.mapError fun _ _ => hP.undecodable _) fun value => ?_
  split
  · next refusal hrefusal =>
    obtain ⟨message, kind, rfl⟩ := Provider.refused_of_refusalOf? hrefusal
    exact .error (hP.refused _ _ _)
  · exact .bind (.mapError fun _ _ => hP.undecodable _) fun glance => .ok _

/-- A stream of chat completions fails by its chunks, or by how it ends. -/
theorem failsBy_eventDecoder (hP : Follows OpenAi.provider P) : eventDecoder.FailsBy P where
  decode _ e := by
    have hevent := onlyFails_decodeEvent hP e
    unfold eventDecoder
    dsimp only
    generalize decodeEvent e = told at hevent ⊢
    exact hevent.map _
  stream := hP.stream
  cancelled := hP.cancelled

end OpenAi

namespace Claude

/-- Of what an event may tell, only an error is a failure. -/
theorem StreamHead.onlyFails_decode (hP : Follows provider P) (head : StreamHead)
    (event : StreamEvent) : OnlyFails P (head.decode provider event) := by
  cases event with
  | failure kind message => exact .error (hP.refused _ _ _)
  | blockStart text =>
    rw [decode]
    split <;> exact .ok _
  | blockDelta text => cases text <;> exact .ok _
  | _ => exact .ok _

/-- An event of the Messages protocol fails by telling of an error or by not being understood. -/
theorem onlyFails_decodeEvent (hP : Follows provider P) (native : Bool) (head : StreamHead)
    (e : Sse.Event) : OnlyFails P (decodeEvent provider native head e) := by
  rw [decodeEvent]
  dsimp only
  split
  · exact .ok _
  exact .bind (.mapError fun _ _ => hP.undecodable _) fun event =>
    .bind (head.onlyFails_decode hP event) fun told => .ok _

/-- A stream of the Messages protocol fails by its events, or by how it ends. -/
theorem failsBy_eventDecoder (hP : Follows provider P) (route : Route) (id : String)
    (created : Int) : (eventDecoder provider route id created).FailsBy P where
  decode head e := by
    have hevent := onlyFails_decodeEvent hP route.isNative head e
    unfold eventDecoder
    dsimp only
    generalize decodeEvent provider route.isNative head e = told at hevent ⊢
    exact hevent
  stream := hP.stream
  cancelled := hP.cancelled

end Claude

namespace Adaptor

variable (a : Adaptor) (hP : Follows a.provider P)

include hP

theorem failsBy_eventDecoder (route : Route) (fresh : Fresh) :
    (a.eventDecoder route fresh).FailsBy P := by
  unfold eventDecoder
  cases hfamily : a.family with
  | openai =>
    have hopenai : Follows OpenAi.provider P := by
      rwa [provider, hfamily] at hP
    exact OpenAi.failsBy_eventDecoder hopenai
  | anthropic | vertexClaude => exact Claude.failsBy_eventDecoder hP _ _ _

theorem onlyFails_understand (route : Route) (fresh : Fresh) (answer : Provider.Answer) :
    OnlyFails P (a.understand route fresh answer) :=
  .bind (answer.onlyFails_readJson_of_follows hP) fun body =>
    a.onlyFails_outcomeOf route fresh body (fun _ => hP.undecodable _) fun _ => hP.internal _

/-- **Whatever the provider answers, the call fails in one of the six ways**, if it comes to
anything and fails. -/
theorem onlyFails_respond {route : Route} {fresh : Fresh} {sink : Option Sink}
    {answer : Provider.Answer} {frames : List Sse.Frame} {result : Except RelayError Outcome}
    (h : a.respond route fresh sink answer = some (frames, result)) : OnlyFails P result := by
  unfold respond at h
  split at h
  · next hready =>
    obtain ⟨-, rfl⟩ := Prod.mk.inj (Option.some.inj h)
    exact .error (a.onlyFails_ensureReady hP.internal _ hready)
  split at h
  · split at h
    · exact absurd h (by simp)
    · next hrejected =>
      obtain ⟨-, rfl⟩ := Prod.mk.inj (Option.some.inj h)
      exact .error (answer.onlyFails_ensureSuccess (fun _ _ _ => hP.refused _ _ _) hrejected _ rfl)
    · obtain ⟨-, rfl⟩ := Prod.mk.inj (Option.some.inj h)
      exact .error (hP.internal _)
    · obtain ⟨-, rfl⟩ := Prod.mk.inj (Option.some.inj h)
      exact Session.onlyFails_run (a.failsBy_eventDecoder hP route fresh) _ _ _ _ _ _
  · obtain ⟨-, rfl⟩ := Prod.mk.inj (Option.some.inj h)
    exact a.onlyFails_understand hP route fresh answer

end Adaptor

/-- A call that has no answer fails as one that did not reach its provider. -/
theorem Exchange.onlyFails_answer (unreachable : ∀ fault, P (.unreachable provider fault))
    (exchange : Exchange) : OnlyFails P (exchange.answer provider) := by
  cases exchange with
  | answered answer => exact .ok answer
  | timedOut | failed => exact .error (unreachable _)

end ModelRelay
