import ModelRelay.Provider.Adaptor
import ModelRelay.Proofs.Delivery.Interleaving
import ModelRelay.Proofs.Fallible

/-!
# What an answer comes to

What a call is billed, read off what the provider sent. A count that the provider reports is taken
over; **for a prompt whose count it does not report, the bill is the estimate that the route
carries**, whichever family the provider is of and whether or not the answer is streamed. A whole
answer always has a body to be passed on.

For whole answers `countsOf` reads the counts once more, apart from what is made of the answer. For
streams `EventDecoder.told` does this with the items, and the counts of the verdict are those of all
that was told (`usage_of_verdict`), by induction on the items. Which of the counts is the last one
that was reported is a fact about lists (`count_toldUsage`).
-/

set_option autoImplicit false

namespace ModelRelay

open Delivery

/-! ## Whole answers

Each family has its own record for the counts. What is common to all of them is that a count is
taken over or left out, and completed at one place. -/

namespace Adaptor

/-- The counts that a whole body reports. -/
def countsOf (a : Adaptor) (body : Json) : Chat.PartialUsage :=
  match a.family with
  | .openai =>
    match Decoder.ofJson OpenAi.Glance.ofAnswer body with
    | .ok g => OpenAi.UsageReport.counts g.usage
    | .error _ => {}
  | .anthropic | .vertexClaude =>
    match Decoder.ofJson Claude.Answer.decoder body with
    | .ok answer => Claude.UsageReport.counts answer.usage
    | .error _ => {}

variable {a : Adaptor} {route : Route} {fresh : Fresh} {outcome : Outcome}

/-- A whole body is billed by the counts that it reports, and passed on in some form. -/
theorem outcomeOf_ok {body : Json} (h : a.outcomeOf route fresh body = .ok outcome) :
    outcome.usage = Chat.Usage.finalize (a.countsOf body) route.promptTokens outcome.text ∧
      ∃ passed, outcome.body = some passed := by
  rw [outcomeOf] at h
  rw [countsOf]
  cases hf : a.family with
  | openai =>
    rw [hf] at h
    obtain ⟨g, hg, h⟩ := exists_of_bind_ok h
    obtain ⟨passed, -, h⟩ := exists_of_bind_ok h
    rw [← Except.ok.inj h, of_mapError_ok hg]
    exact ⟨rfl, passed, rfl⟩
  | anthropic | vertexClaude =>
    rw [hf] at h
    obtain ⟨answer, hanswer, h⟩ := exists_of_bind_ok h
    rw [← Except.ok.inj h, of_mapError_ok hanswer]
    exact ⟨rfl, _, rfl⟩

theorem readJson_of_understand {answer : Provider.Answer}
    (h : a.understand route fresh answer = .ok outcome) :
    ∃ body, answer.readJson a.provider = .ok body ∧ a.outcomeOf route fresh body = .ok outcome :=
  exists_of_bind_ok h

theorem body_of_understand {answer : Provider.Answer}
    (h : a.understand route fresh answer = .ok outcome) : ∃ body, outcome.body = some body := by
  obtain ⟨json, -, hjson⟩ := readJson_of_understand h
  exact (outcomeOf_ok hjson).2

end Adaptor

/-! ## Streams

A session is played move by move, and the invariant of all plays (`known_of_play`) relates what its
courier has added up to the items that it has taken. -/

namespace Delivery

open Sse

namespace EventDecoder

variable (d : EventDecoder)

/-- What items mean, up to the one that ends the stream. -/
def told (s : d.State) : List Item → List Decoded
  | .event e :: rest =>
    match d.decode s e with
    | .ok (s', x) => if x.finished then [x] else x :: told s' rest
    | .error _ => []
  | _ => []

variable {d}

/-- A stream that ends well is billed by all that its events told. -/
theorem usage_of_verdict {promptTokens : UInt32} {s : d.State} {text : String}
    {usage : Chat.PartialUsage} {items : List Item} {outcome : Outcome}
    (h : d.verdict promptTokens s text usage items = some (.ok outcome)) :
    outcome.usage
      = Chat.Usage.finalize (toldUsage usage (d.told s items)) promptTokens outcome.text := by
  induction items generalizing s text usage with
  | nil => exact absurd h (by simp [verdict])
  | cons item rest ih =>
    cases item with
    | broken detail => exact absurd h (by simp [verdict])
    | finished => exact absurd h (by simp [verdict])
    | event e =>
      rw [verdict] at h
      rw [told]
      cases hdec : d.decode s e with
      | error fault =>
        rw [hdec] at h
        exact absurd h (by simp)
      | ok r =>
        obtain ⟨s', x⟩ := r
        rw [hdec] at h
        cases hfin : x.finished with
        | true =>
          simp only [hfin, if_true] at h ⊢
          rw [← Except.ok.inj (Option.some.inj h)]
          rfl
        | false =>
          simp only [hfin, Bool.false_eq_true, if_false] at h ⊢
          exact ih h

end EventDecoder

/-- A stream that ends well was billed by what its events reported, whoever moved in between. -/
theorem Session.prompt_of_result {d : EventDecoder} {items : List Item} {native : Bool}
    {promptTokens : UInt32} {buffer patience : Nat} {moves : List Move} {s : Session d}
    {outcome : Outcome}
    (hp : (Session.ofItems items native promptTokens buffer patience).play moves = some s)
    (hr : s.courier.result? = some (.ok outcome)) :
    outcome.usage.prompt
      = (lastReported (·.prompt) (d.told d.start (items ++ Move.arrivals moves))).getD
          promptTokens := by
  obtain ⟨read, h⟩ := known_of_play hp
  have hended := Courier.stage_of_result? hr
  have ht := h.faithful.tracked fun e he => absurd (hended.symm.trans he) (by simp)
  have hfate : s.courier.fate s.incoming
      = d.verdict promptTokens d.start "" {} (read ++ s.incoming) := ht.fate _
  rw [Courier.fate, hended, h.all] at hfate
  rw [EventDecoder.usage_of_verdict hfate.symm]
  show Option.getD (toldUsage {} _).prompt _ = _
  rw [count_toldUsage (·.prompt) (fun _ _ => rfl), Option.or_none]

end Delivery

end ModelRelay
