import ModelRelay.Proofs.Relay.Alone
import ModelRelay.Proofs.Relay.Standing

/-!
# What a call does to the world

`IsOrderly` is what those outside the relay can count on of one call, read off its log: the steps
come in one order, a failure is the last of them, and **a call is billed if and only if its answer
was understood**, once, for what the answer came to. `isOrderly_of_isSound` finds it wherever a call
may stand, and so every call in any traffic has it.

An answer is understood in two ways. A whole one is, or is not, as soon as it is there; a streamed
one when its session ends well. `Responded` is both, so that the bill can be told apart from how it
came about.

The proof takes the fields of `IsOrderly` one by one. Each is a case analysis on where the call
stands (`Stands`), and of a call that is still within its plan on the point that it is at
(`Course`). No field needs an induction of its own. The one over the happenings is in
`Relay.Standing` and keeps where calls stand; what a call can have done is then a matter of its
present place.

The bill of a stream belongs to the last move of its session, and the log does not hold the moves.
They are in the stage, so `Responded` looks there. Calls that were stopped, and those whose caller
waits for the end of a refusal, have no result and no bill.

That a call ever comes to rest is not claimed: a provider may never answer, and a caller may never
read.
-/

set_option autoImplicit false

namespace ModelRelay

namespace Entry

/-- The channel that was found in a step. -/
def channel? : Entry → Option Channel
  | ⟨.resolve _, answer⟩ =>
    match (answer : Except RelayError Channel) with
    | .ok channel => some channel
    | .error _ => none
  | _ => none

/-- The answer of a provider that came in a step. -/
def providerAnswer? : Entry → Option Provider.Answer
  | ⟨.post _, exchange⟩ =>
    match (exchange : Exchange) with
    | .answered answer => some answer
    | _ => none
  | _ => none

end Entry

namespace Traffic

namespace Call

/-- What came of the answer for the caller of a route, once that is known: at once for a whole
answer, and with the end of its session for a stream. -/
def Responded (d : Dispatcher) (c : Call) (route : Route) (result : Except RelayError Outcome) :
    Prop :=
  (∃ request replaced channel answer, c.body.settle = .ok (request, replaced) ∧
    c.log.findSome? Entry.channel? = some channel ∧
    c.log.findSome? Entry.providerAnswer? = some answer ∧
    route = Dispatcher.routeOf c.caller request channel ∧ route.stream = false ∧
    (d.adaptor route).understand route c.fresh answer = result) ∨
  ∃ answer moves task s, c.stage = .streaming route answer moves task ∧
    (d.session route c.fresh answer).play moves = some s ∧ s.courier.result? = some result

/-- The prompt's count as the provider reported it. -/
def reportedPrompt? (d : Dispatcher) (c : Call) (route : Route) : Option UInt32 :=
  match c.stage with
  | .streaming _ answer moves _ =>
    let decoder := (d.adaptor route).eventDecoder route c.fresh
    Delivery.lastReported (·.prompt)
      (decoder.told decoder.start (answer.items ++ Delivery.Move.arrivals moves))
  | _ => do
    let answer ← c.log.findSome? Entry.providerAnswer?
    let body ← (answer.readJson (d.adaptor route).provider).toOption
    ((d.adaptor route).countsOf body).prompt

/-- What those outside the relay can count on of a call. -/
structure IsOrderly (d : Dispatcher) (c : Call) : Prop where
  /-- For a body that cannot be read nothing is done. -/
  unread : ∀ e, c.body.settle = .error e → c.log = [] ∧ c.stage = .failed e
  /-- The steps come in their order, each once at most. -/
  inOrder : ∀ request replaced, c.body.settle = .ok (request, replaced) →
    ∃ route post usage, route.model = request.model ∧
      route.promptTokens = Chat.Tokens.ofPrompt request ∧
      c.effects <+: [.resolve request.model, .reserve (Chat.Tokens.ofPrompt request), .post post,
        .record route usage]
  /-- A step that fails is the last, and the caller gets its failure. -/
  failsLast : ∀ request replaced, c.body.settle = .ok (request, replaced) →
    ∀ before after e, c.log = before ++ after → d.Fails c.caller request c.fresh before e →
      after = [] ∧ c.stage = .failed e
  /-- No other failure gets to the caller. -/
  failed : ∀ request replaced, c.body.settle = .ok (request, replaced) →
    ∀ e, c.stage = .failed e → d.Fails c.caller request c.fresh c.log e
  /-- What is billed was understood, and the caller has it, whatever came of the bill. -/
  billed : ∀ route usage, .record route usage ∈ c.effects →
    ∃ outcome, c.Responded d route (.ok outcome) ∧ outcome.usage = usage ∧
      ((∃ body, outcome.body = some body ∧ c.stage = .whole body usage) ∨
        ∃ answer moves, c.stage = .streaming route answer moves .ended)
  /-- What was understood is billed. -/
  bills : ∀ route outcome, c.stage.isAtRest = true → c.Responded d route (.ok outcome) →
    .record route outcome.usage ∈ c.effects
  /-- A whole answer is not given unbilled. -/
  whole : ∀ body usage, c.stage = .whole body usage → ∃ route, .record route usage ∈ c.effects
  /-- Of a stream that is done with something came, whether it is to be billed or not. -/
  ended : ∀ route answer moves, c.stage = .streaming route answer moves .ended →
    ∃ result, c.Responded d route result
  /-- What was not understood is not billed, nor is what the caller left. -/
  unbilled : ∀ route e, c.Responded d route (.error e) →
    ∀ route' usage, .record route' usage ∉ c.effects
  /-- A whole answer that was understood has a body. -/
  hasBody : ∀ route outcome, c.Responded d route (.ok outcome) → route.stream = false →
    ∃ body, outcome.body = some body
  /-- A prompt whose count was not reported is billed as it was reserved. -/
  counted : ∀ route usage, .record route usage ∈ c.effects →
    ∃ tokens, .reserve tokens ∈ c.effects ∧
      usage.prompt = (c.reportedPrompt? d route).getD tokens

end Call

/-! ## The points of a call

Up to the point where its caller is answered a call is at one of the points of its plan, and what
its log holds there is known. -/

section Points

open Dispatcher Plan

variable {d : Dispatcher} {caller : Caller} {request : Chat.Request} {fresh : Fresh}
  {log : List Entry}

/-- The steps of a call in their order. -/
def stepsOf (caller : Caller) (request : Chat.Request) (channel : Channel) (post : Post)
    (usage : Chat.Usage) : List Effect :=
  [.resolve request.model, .reserve (Chat.Tokens.ofPrompt request), .post post,
    .record (routeOf caller request channel) usage]

/-- Whatever point a call is at, it got there by the first of its steps. What those that are still
to come will be about is not settled there, so any channel, call and counts will do. -/
theorem steps_of_course {p : Plan (Except RelayError Opening)}
    (h : Course d caller request fresh log p) :
    ∃ channel post usage, log.map (·.effect) <+: stepsOf caller request channel post usage := by
  have channel : Channel := { id := "", family := .openai, baseUrl := "", apiKey := "" }
  have post : Post := { url := "", headers := [], body := "", timeout := none }
  have usage : Chat.Usage := ⟨0, 0, 0⟩
  cases h with
  | failed fails =>
    cases fails with
    | invalid | unresolved | denied | unprepared => exact ⟨channel, post, usage, _, rfl⟩
    | unanswered | rejected | misunderstood => exact ⟨channel, _, usage, _, rfl⟩
  | resolving | reserving | posting => exact ⟨channel, post, usage, _, rfl⟩
  | streaming | waiting | billing => exact ⟨channel, _, usage, _, rfl⟩
  | answered => exact ⟨_, _, _, _, rfl⟩

/-- A stream that has begun is one that was asked for, and its log ends with the answer. -/
theorem of_begun {route : Route} {answer : Provider.Answer}
    (h : Begun d caller request fresh log route answer) :
    ∃ channel post, request.stream = true ∧ route = routeOf caller request channel ∧
      log = admitted request channel ++ [.posted post (.answered answer)] := by
  cases course_of_leads h with
  | streaming stream => exact ⟨_, _, stream, rfl, rfl⟩

/-- A call that is not streamed has its bill at its end only, and gets there with an answer that was
understood. -/
theorem of_recorded {p : Plan (Except RelayError Opening)} {route : Route} {usage : Chat.Usage}
    (h : Course d caller request fresh log p) (hm : .record route usage ∈ log.map (·.effect)) :
    ∃ channel post answer outcome body billed, request.stream = false ∧
      (d.adaptor route).understand route fresh answer = .ok outcome ∧
      outcome.body = some body ∧ route = routeOf caller request channel ∧ usage = outcome.usage ∧
      log = admitted request channel ++ [.posted post (.answered answer),
        .recorded route usage billed] ∧
      p = .done (.ok (.whole body usage)) := by
  cases h with
  | failed fails => cases fails <;> exact absurd hm (by simp [admitted])
  | resolving | reserving | posting | streaming | waiting | billing =>
    exact absurd hm (by simp [admitted])
  | answered whole understood hasBody =>
    obtain ⟨rfl, rfl⟩ : route = _ ∧ usage = _ := by simpa [admitted] using hm
    exact ⟨_, _, _, _, _, _, whole, understood, hasBody, rfl, rfl, rfl, rfl⟩

theorem whole_of_recorded {p : Plan (Except RelayError Opening)} {route : Route}
    {usage : Chat.Usage} (h : Course d caller request fresh log p)
    (hm : .record route usage ∈ log.map (·.effect)) :
    ∃ body, p = .done (.ok (.whole body usage)) := by
  obtain ⟨_, _, _, _, body, _, -, -, -, -, -, -, hp⟩ := of_recorded h hm
  exact ⟨body, hp⟩

/-- A call at the end of its plan whose answer was understood has its bill. -/
theorem recorded_of_understood {result : Except RelayError Opening} {channel : Channel}
    {answer : Provider.Answer} {outcome : Outcome}
    (h : Course d caller request fresh log (.done result))
    (hchannel : log.findSome? Entry.channel? = some channel)
    (hanswer : log.findSome? Entry.providerAnswer? = some answer)
    (hwhole : request.stream = false)
    (hr : (d.adaptor (routeOf caller request channel)).understand
      (routeOf caller request channel) fresh answer = .ok outcome) :
    .record (routeOf caller request channel) outcome.usage ∈ log.map (·.effect) := by
  cases h with
  | failed fails =>
    cases fails with
    | invalid | unresolved | denied | unprepared =>
      exact absurd (show none = some answer from hanswer) (by simp)
    | @unanswered _ _ exchange _ _ _ unanswered =>
      cases exchange with
      | answered answer => exact absurd unanswered (by simp [Exchange.answer])
      | timedOut | failed => exact absurd (show none = some answer from hanswer) (by simp)
    | rejected valid prepared stream rejected => exact absurd (stream.symm.trans hwhole) (by simp)
    | misunderstood valid prepared whole misunderstood =>
      obtain rfl := Option.some.inj (show some _ = some channel from hchannel)
      obtain rfl := Option.some.inj (show some _ = some answer from hanswer)
      exact absurd (misunderstood.symm.trans hr) (by simp)
  | streaming stream | waiting stream => exact absurd (stream.symm.trans hwhole) (by simp)
  | answered whole understood hasBody =>
    obtain rfl := Option.some.inj (show some _ = some channel from hchannel)
    obtain rfl := Option.some.inj (show some _ = some answer from hanswer)
    obtain rfl := Except.ok.inj (understood.symm.trans hr)
    simp [admitted]

/-! ## Wherever a call stands

Calls beyond their plan have the log of the plan, and one bill more if their session ended well. So
the facts about points carry over. -/

variable {stage : Stage}

theorem steps_of_stands (h : Stands d caller request fresh log stage) :
    ∃ channel post usage, log.map (·.effect) <+: stepsOf caller request channel post usage := by
  cases h with
  | opening leads | abandoned leads | waiting leads | abandonedWaiting leads | failed leads
  | whole leads =>
    exact steps_of_course (course_of_leads leads)
  | forwarding begun | stopped begun | broken begun | billing begun =>
    exact steps_of_course (course_of_leads begun)
  | @billed _ route answer moves s outcome billed begun played result =>
    obtain ⟨channel, post, -, rfl, rfl⟩ := of_begun begun
    exact ⟨channel, post, outcome.usage, [], rfl⟩

/-- A failure that a log leads to is where the call stands. -/
theorem failed_of_leads {before after : List Entry} {e : RelayError}
    {q : Plan (Except RelayError Opening)} (h : Fails d caller request fresh before e)
    (leads : Leads (d.begin caller request fresh).run (before ++ after) q) :
    after = [] ∧ q = .done (.error e) := by
  obtain ⟨r, hbefore, hafter⟩ := leads.split
  rw [hbefore.unique (leads_of_fails h)] at hafter
  exact hafter.of_done

/-- A failure in a log is where the call stands, with nothing behind it. -/
theorem failsLast_of_stands {before after : List Entry} {e : RelayError}
    (h : Stands d caller request fresh log stage) (hlog : log = before ++ after)
    (hf : Fails d caller request fresh before e) : after = [] ∧ stage = .failed e := by
  cases h with
  | opening leads | abandoned leads | waiting leads | abandonedWaiting leads | whole leads =>
    rw [hlog] at leads
    exact absurd (failed_of_leads hf leads).2 (by simp)
  | failed leads =>
    rw [hlog] at leads
    obtain ⟨hafter, hq⟩ := failed_of_leads hf leads
    obtain rfl := Except.error.inj (Plan.done.inj hq)
    exact ⟨hafter, rfl⟩
  | forwarding begun | stopped begun | broken begun | billing begun =>
    rw [Begun, hlog] at begun
    exact absurd (failed_of_leads hf begun).2 (by simp)
  | @billed opened route answer moves s outcome billed begun played result =>
    -- Either the failure is before the stream began, or the bill belongs to the failure.
    rcases List.append_eq_append_iff.mp hlog with ⟨more, hbefore, -⟩ | ⟨more, hopened, -⟩
    · obtain ⟨r, hr, hmore⟩ := (hbefore ▸ leads_of_fails hf).split
      rw [hr.unique begun] at hmore
      exact absurd hmore.of_done.2 (by simp)
    · rw [Begun, hopened] at begun
      exact absurd (failed_of_leads hf begun).2 (by simp)

theorem fails_of_stands {e : RelayError} (h : Stands d caller request fresh log (.failed e)) :
    Fails d caller request fresh log e := by
  cases h with
  | failed leads =>
    cases course_of_leads leads with
    | failed fails => exact fails

theorem recorded_of_whole {body : Json} {usage : Chat.Usage}
    (h : Stands d caller request fresh log (.whole body usage)) :
    ∃ route, .record route usage ∈ log.map (·.effect) := by
  cases h with
  | whole leads =>
    cases course_of_leads leads with
    | @answered channel => exact ⟨routeOf caller request channel, by simp [admitted]⟩

end Points

/-! ## Calls

The fields of `IsOrderly`, for a call whose body was settled. -/

section Calls

open Dispatcher Plan

variable {d : Dispatcher} {c : Call}

/-- A call that stands beyond its plan was billed for its session; one that does not, for its whole
answer. -/
theorem billed_of_stands {request : Chat.Request} {replaced : Option StoredBody} {route : Route}
    {usage : Chat.Usage} (hbody : c.body.settle = .ok (request, replaced))
    (h : Stands d c.caller request c.fresh c.log c.stage)
    (hm : .record route usage ∈ c.effects) :
    .reserve route.promptTokens ∈ c.effects ∧
      usage.prompt = (c.reportedPrompt? d route).getD route.promptTokens ∧
      ∃ outcome, c.Responded d route (.ok outcome) ∧ outcome.usage = usage ∧
        ((∃ body, outcome.body = some body ∧ c.stage = .whole body usage) ∨
          ∃ answer moves, c.stage = .streaming route answer moves .ended) := by
  obtain ⟨caller, body, fresh, log, stage⟩ := c
  dsimp only at hbody h
  -- A bill is in the log in two of these places only.
  cases h with
  | opening leads | abandoned leads | waiting leads | abandonedWaiting leads | failed leads =>
    obtain ⟨_, hp⟩ := whole_of_recorded (course_of_leads leads) hm
    exact absurd hp (by simp)
  | whole leads =>
    obtain ⟨channel, post, answer, outcome, json, billed, hwhole, hr, hjson, rfl, rfl, rfl, hp⟩ :=
      of_recorded (course_of_leads leads) hm
    obtain ⟨rfl, rfl⟩ : _ = json ∧ _ = outcome.usage := by simpa using hp
    refine ⟨by simp [Call.effects, admitted, routeOf], ?_, outcome,
      Or.inl ⟨request, replaced, channel, answer, hbody, rfl, rfl, rfl, hwhole, hr⟩, rfl,
      Or.inl ⟨_, hjson, rfl⟩⟩
    obtain ⟨value, hread, hvalue⟩ := Adaptor.readJson_of_understand hr
    show _ = Option.getD ((answer.readJson _).toOption.bind _) _
    rw [hread, (Adaptor.outcomeOf_ok hvalue).1]
    rfl
  | forwarding begun | stopped begun | broken begun | billing begun =>
    obtain ⟨_, hp⟩ := whole_of_recorded (course_of_leads begun) hm
    exact absurd hp (by simp)
  | @billed opened _ answer moves s outcome billed begun played result =>
    obtain ⟨channel, post, -, rfl, rfl⟩ := of_begun begun
    obtain ⟨rfl, rfl⟩ : route = _ ∧ usage = _ := by simpa [Call.effects, admitted] using hm
    exact ⟨by simp [Call.effects, admitted, routeOf],
      Delivery.Session.prompt_of_result played result, outcome,
      Or.inr ⟨answer, moves, .ended, s, rfl, played, result⟩, rfl, Or.inr ⟨answer, moves, rfl⟩⟩

theorem responded_of_ended {request : Chat.Request} {route : Route} {answer : Provider.Answer}
    {moves : List Delivery.Move} (h : Stands d c.caller request c.fresh c.log c.stage)
    (hstage : c.stage = .streaming route answer moves .ended) :
    ∃ result, c.Responded d route result := by
  obtain ⟨caller, body, fresh, log, stage⟩ := c
  dsimp only at h hstage
  subst hstage
  cases h with
  | broken begun played result =>
    exact ⟨_, Or.inr ⟨answer, moves, .ended, _, rfl, played, result⟩⟩
  | billed begun played result =>
    exact ⟨_, Or.inr ⟨answer, moves, .ended, _, rfl, played, result⟩⟩

/-- A call at rest whose answer was understood was billed for it. -/
theorem recorded_of_stands {request : Chat.Request} {replaced : Option StoredBody} {route : Route}
    {outcome : Outcome} (hbody : c.body.settle = .ok (request, replaced))
    (h : Stands d c.caller request c.fresh c.log c.stage) (hrest : c.stage.isAtRest = true)
    (hr : c.Responded d route (.ok outcome)) : .record route outcome.usage ∈ c.effects := by
  obtain ⟨caller, body, fresh, log, stage⟩ := c
  dsimp only at hbody h
  rcases hr with ⟨request', replaced', channel, answer, hbody', hchannel, hanswer, rfl, hwhole, hr⟩
    | ⟨answer, moves, task, s, hstage, hplayed, hresult⟩
  · obtain ⟨rfl, -⟩ := Prod.mk.inj (Except.ok.inj (hbody.symm.trans hbody'))
    cases h with
    | failed leads | whole leads | waiting leads | abandonedWaiting leads =>
      exact recorded_of_understood (course_of_leads leads) hchannel hanswer hwhole hr
    | broken begun | billed begun =>
      obtain ⟨_, _, hstream, -, -⟩ := of_begun begun
      exact absurd (hstream.symm.trans hwhole) (by simp)
    | _ => exact absurd hrest (by simp [Stage.isAtRest])
  · dsimp only at hstage
    subst hstage
    cases h with
    | broken begun played result =>
      obtain rfl := Option.some.inj (played.symm.trans hplayed)
      exact absurd (result.symm.trans hresult) (by simp)
    | billed begun played result =>
      obtain rfl := Option.some.inj (played.symm.trans hplayed)
      obtain rfl := Except.ok.inj (Option.some.inj (result.symm.trans hresult))
      simp [Call.effects]
    | _ => exact absurd hrest (by simp [Stage.isAtRest])

theorem stream_of_stands {request : Chat.Request} {route : Route} {answer : Provider.Answer}
    {moves : List Delivery.Move} {task : Task}
    (h : Stands d c.caller request c.fresh c.log c.stage)
    (hstage : c.stage = .streaming route answer moves task) :
    request.stream = true ∧ route.stream = true := by
  have hbegun : ∃ log, Begun d c.caller request c.fresh log route answer := by
    generalize c.log = log at h
    rw [hstage] at h
    cases h with
    | forwarding begun | stopped begun | broken begun | billing begun | billed begun =>
      exact ⟨_, begun⟩
  obtain ⟨log, begun⟩ := hbegun
  obtain ⟨channel, post, hstream, rfl, -⟩ := of_begun begun
  exact ⟨hstream, hstream⟩

theorem body_of_responded {request : Chat.Request} {route : Route} {outcome : Outcome}
    (h : Stands d c.caller request c.fresh c.log c.stage)
    (hr : c.Responded d route (.ok outcome)) (hwhole : route.stream = false) :
    ∃ body, outcome.body = some body := by
  rcases hr with ⟨_, _, _, _, -, -, -, rfl, -, hr⟩ | ⟨answer, moves, task, s, hstage, -, -⟩
  · exact Adaptor.body_of_understand hr
  · exact absurd (hwhole.symm.trans (stream_of_stands h hstage).2) (by simp)

/-- Of one answer only one thing comes. -/
theorem result_of_responded {request : Chat.Request} {replaced : Option StoredBody}
    {route route' : Route} {result result' : Except RelayError Outcome}
    (hbody : c.body.settle = .ok (request, replaced))
    (h : Stands d c.caller request c.fresh c.log c.stage)
    (hr : c.Responded d route result) (hr' : c.Responded d route' result') : result = result' := by
  rcases hr with ⟨asked, _, channel, answer, hasked, hchannel, hanswer, rfl, hwhole, hr⟩ |
    ⟨answer, moves, task, s, hstage, hplayed, hresult⟩
  · obtain ⟨rfl, -⟩ := Prod.mk.inj (Except.ok.inj (hbody.symm.trans hasked))
    rcases hr' with ⟨asked, _, channel', answer', hasked, hchannel', hanswer', rfl, -, hr'⟩ |
      ⟨_, _, _, _, hstage, -⟩
    · obtain ⟨rfl, -⟩ := Prod.mk.inj (Except.ok.inj (hbody.symm.trans hasked))
      obtain rfl := Option.some.inj (hchannel.symm.trans hchannel')
      obtain rfl := Option.some.inj (hanswer.symm.trans hanswer')
      exact hr.symm.trans hr'
    · exact absurd (hwhole.symm.trans (stream_of_stands h hstage).1) (by simp)
  · rcases hr' with ⟨asked, _, _, _, hasked, -, -, rfl, hwhole, -⟩ |
      ⟨_, _, _, _, hstage', hplayed', hresult'⟩
    · obtain ⟨rfl, -⟩ := Prod.mk.inj (Except.ok.inj (hbody.symm.trans hasked))
      exact absurd (hwhole.symm.trans (stream_of_stands h hstage).1) (by simp)
    · obtain ⟨rfl, rfl, rfl, rfl⟩ := Stage.streaming.inj (hstage.symm.trans hstage')
      obtain rfl := Option.some.inj (hplayed.symm.trans hplayed')
      exact Option.some.inj (hresult.symm.trans hresult')

theorem not_responded_of_unread {e : RelayError} {route : Route}
    {result : Except RelayError Outcome} (hbody : c.body.settle = .error e)
    (hstage : c.stage = .failed e) : ¬ c.Responded d route result := by
  rintro (⟨_, _, _, _, hok, -⟩ | ⟨_, _, _, _, hstream, -⟩)
  · exact absurd (hok.symm.trans hbody) (by simp)
  · exact absurd (hstream.symm.trans hstage) (by simp)

theorem isOrderly_unread {e : RelayError} (hbody : c.body.settle = .error e) (hlog : c.log = [])
    (hstage : c.stage = .failed e) : c.IsOrderly d where
  unread e' he' := by
    rw [Except.error.inj (he'.symm.trans hbody)]
    exact ⟨hlog, hstage⟩
  inOrder _ _ hok := absurd (hok.symm.trans hbody) (by simp)
  failsLast _ _ hok := absurd (hok.symm.trans hbody) (by simp)
  failed _ _ hok := absurd (hok.symm.trans hbody) (by simp)
  billed _ _ hm := absurd hm (by simp [Call.effects, hlog])
  bills _ _ _ hr := absurd hr (not_responded_of_unread hbody hstage)
  whole _ _ hwhole := absurd (hwhole.symm.trans hstage) (by simp)
  ended _ _ _ hended := absurd (hended.symm.trans hstage) (by simp)
  unbilled _ _ _ _ _ hm := absurd hm (by simp [Call.effects, hlog])
  hasBody _ _ hr _ := absurd hr (not_responded_of_unread hbody hstage)
  counted _ _ hm := absurd hm (by simp [Call.effects, hlog])

/-- A call that stands where it may is orderly. -/
theorem isOrderly_of_stands {request : Chat.Request} {replaced : Option StoredBody}
    (hbody : c.body.settle = .ok (request, replaced))
    (h : Stands d c.caller request c.fresh c.log c.stage) : c.IsOrderly d where
  unread _ he := absurd (he.symm.trans hbody) (by simp)
  inOrder request' _ hok := by
    obtain ⟨rfl, -⟩ := Prod.mk.inj (Except.ok.inj (hbody.symm.trans hok))
    obtain ⟨channel, post, usage, hsteps⟩ := steps_of_stands h
    exact ⟨routeOf c.caller request channel, post, usage, rfl, rfl, hsteps⟩
  failsLast request' _ hok before after e hlog hf := by
    obtain ⟨rfl, -⟩ := Prod.mk.inj (Except.ok.inj (hbody.symm.trans hok))
    exact failsLast_of_stands h hlog hf
  failed request' _ hok e hstage := by
    obtain ⟨rfl, -⟩ := Prod.mk.inj (Except.ok.inj (hbody.symm.trans hok))
    exact fails_of_stands (hstage ▸ h)
  billed route usage hm := (billed_of_stands hbody h hm).2.2
  bills route outcome hrest hr := recorded_of_stands hbody h hrest hr
  whole body usage hwhole := recorded_of_whole (hwhole ▸ h)
  ended route answer moves hended := responded_of_ended h hended
  unbilled route e hr route' usage hm := by
    obtain ⟨-, -, outcome, hr', -⟩ := billed_of_stands hbody h hm
    exact absurd (result_of_responded hbody h hr hr') (by simp)
  hasBody route outcome hr hwhole := body_of_responded h hr hwhole
  counted route usage hm := by
    obtain ⟨hreserve, hprompt, -⟩ := billed_of_stands hbody h hm
    exact ⟨route.promptTokens, hreserve, hprompt⟩

/-- What is kept of a call in any traffic makes it orderly. -/
theorem isOrderly_of_isSound (h : c.IsSound d) : c.IsOrderly d := by
  rcases h with ⟨e, hbody, hlog, hstage⟩ | ⟨request, replaced, hbody, h⟩
  · exact isOrderly_unread hbody hlog hstage
  · exact isOrderly_of_stands hbody h

end Calls

/-! ## Any traffic

The invariant of `Relay.Standing` is read at any moment, and `relay` is shown to be a run of it, so
what is said of traffic says something of the function that runs. -/

theorem isForwarding_of_isAtRest {stage : Stage} (h : stage.isAtRest = true) :
    stage.isForwarding = false := by
  cases stage with
  | opening | failed | whole | waiting | abandoned => rfl
  | streaming route answer moves task =>
    cases task with
    | ended | stopped => rfl
    | forwarding | billing => exact absurd h (by simp [Stage.isAtRest])

/-- **Whatever happens, every call is orderly and every stream that is not over is counted**, and
relaying a call from its start to its end is one of the things that may happen: it does what the
call does, gives its caller what the call gives, and leaves no stream behind.

Where a call stands is an invariant of what happens (`IsSound`), with the count of the guards in it.
Everything else is read off the place of each call at the moment. -/
theorem traffic_is_orderly (d : Dispatcher) :
    (∀ (happenings : List Happening) (t : Traffic), ({} : Traffic).after? d happenings = some t →
      t.activeStreams = UInt64.ofNat (t.calls.countP (·.stage.isForwarding)) ∧
        ∀ c ∈ t.calls, c.IsOrderly d) ∧
    ∀ (caller : Caller) (body : StoredBody) (fresh : Fresh) (reader : Delivery.Session.Caller),
      ∃ (happenings : List Happening) (c : Call),
        ({} : Traffic).after? d happenings = some { calls := [c], activeStreams := 0 } ∧
        (c.caller = caller ∧ c.body = body ∧ c.fresh = fresh) ∧
        c.effects = (d.relay caller body fresh reader).effects ∧
        c.stage.isAtRest = true ∧ c.Got d (d.relay caller body fresh reader).reply := by
  have hall (happenings : List Happening) (t : Traffic)
      (h : ({} : Traffic).after? d happenings = some t) :
      t.activeStreams = UInt64.ofNat (t.calls.countP (·.stage.isForwarding)) ∧
        ∀ c ∈ t.calls, c.IsOrderly d := by
    have hsound := (isSound_idle d).after? h
    exact ⟨hsound.guards, fun c hc => isOrderly_of_isSound (hsound.calls c hc)⟩
  refine ⟨hall, fun caller body fresh reader => ?_⟩
  obtain ⟨happenings, c, n, hafter, hsame, heffects, hrest, hgot⟩ :=
    relay_is_traffic d caller body fresh reader
  -- The count is that of the guards. The one call is at rest, so it holds none.
  have hcount : n = 0 := by
    have hn := (hall happenings _ hafter).1
    simpa [isForwarding_of_isAtRest hrest] using hn
  subst hcount
  exact ⟨happenings, c, hafter, hsame, heffects, hrest, hgot⟩

/-- A dispatcher with one channel, whose provider ends every stream at once. -/
def brief : Dispatcher where
  services := .ofChannels
    [{ id := "local", family := .openai, baseUrl := "http://host", apiKey := "key",
       models := ["small"] }]
  send _ := .answered { body := "data: [DONE]\n\n".toUTF8 }

/-- Of two who call at once the second is billed, though the first left between its steps and is
not. -/
theorem billed_beside_one_who_left :
    let caller : Caller := { id := "tests", protocol := .completions }
    let body := StoredBody.ofText <|
      "\x7b\"model\": \"small\", \"messages\": [\x7b\"role\": \"user\"\x7d], " ++
        "\"stream\": true\x7d"
    let answer := brief.answerOf caller
    let happenings := [.call caller body ⟨"1", 0, 0⟩, .call caller body ⟨"2", 0, 0⟩,
      .answered 0 answer, .answered 1 answer, .answered 1 answer, .answered 0 answer,
      .answered 1 answer, .moved 1 .read, .answered 0 answer, .moved 1 .accept, .finished 1,
      .moved 0 .leave, .moved 0 .notice, .finished 0, .answered 1 answer]
    ∃ t, ({} : Traffic).after? brief happenings = some t ∧
      t.calls.map (·.log.length) = [3, 4] ∧
      t.activeStreams = UInt64.ofNat (t.calls.countP (·.stage.isForwarding)) ∧
        ∀ c ∈ t.calls, c.IsOrderly brief := by
  intro caller body answer happenings
  have hlogs : (({} : Traffic).after? brief happenings).map (fun t => t.calls.map (·.log.length))
      = some [3, 4] := by
    decide +kernel
  obtain ⟨t, ht, hlengths⟩ := Option.map_eq_some_iff.mp hlogs
  exact ⟨t, ht, hlengths, (traffic_is_orderly brief).1 happenings t ht⟩

end Traffic

end ModelRelay
