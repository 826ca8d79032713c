import ModelRelay.Provider.Adaptor

/-!
# Plans

A call reaches out of the relay in steps, and what it does next depends on what each step is
answered. A plan is such a call before it is made: the next step, and for every answer to it the
plan from there on. Who answers is left open. `follow` asks parties who answer a step the same way
whenever they are asked; a relay among others is asked by whatever comes next.
-/

set_option autoImplicit false

namespace ModelRelay

/-- What comes of sending a call. -/
inductive Exchange where
  | answered (answer : Provider.Answer)
  | timedOut (detail : String)
  | failed (detail : String)

namespace Exchange

/-- The answer to a call that was sent, if there is one. -/
def answer (provider : String) : Exchange → Except RelayError Provider.Answer
  | answered answer => .ok answer
  | timedOut detail => .error (.unreachable provider (.timedOut detail))
  | failed detail => .error (.unreachable provider (.failed detail))

end Exchange

/-- A step that reaches out of the relay. -/
inductive Effect where
  | resolve (model : String)
  | reserve (tokens : UInt32)
  | post (post : Post)
  | record (route : Route) (usage : Chat.Usage)
deriving Repr

/-- What a step is answered. -/
def Effect.Answer : Effect → Type
  | resolve _ => Except RelayError Channel
  | reserve _ => Except RelayError Unit
  | post _ => Exchange
  | record _ _ => Except RelayError Unit

/-- What is done in steps. -/
inductive Plan (α : Type) where
  | done (a : α)
  | step (effect : Effect) (next : effect.Answer → Plan α)

namespace Plan

variable {α β : Type}

protected def bind (f : α → Plan β) : Plan α → Plan β
  | done a => f a
  | step effect next => step effect fun answer => (next answer).bind f

instance : Monad Plan where
  pure := done
  bind p f := p.bind f

/-- Takes one step. -/
def ask (effect : Effect) : Plan effect.Answer :=
  step effect done

/-- Carries out a plan, and keeps its steps. -/
def follow (answer : (effect : Effect) → effect.Answer) : Plan α → α × List Effect
  | done a => (a, [])
  | step effect next =>
    let (a, effects) := (next (answer effect)).follow answer
    (a, effect :: effects)

end Plan

/-- A call in progress, which may fail. -/
abbrev Calling := ExceptT RelayError Plan

namespace Calling

/-- The value of a result, or its failure. -/
def ofExcept {α : Type} (result : Except RelayError α) : Calling α :=
  ExceptT.mk (pure result)

/-- Has the channel found that serves a model. -/
def resolve (model : String) : Calling Channel :=
  ExceptT.mk (Plan.ask (.resolve model))

/-- Has the quota checked for a prompt. -/
def reserve (tokens : UInt32) : Calling Unit :=
  ExceptT.mk (Plan.ask (.reserve tokens))

/-- Calls a provider. -/
def exchange (provider : String) (post : Post) : Calling Provider.Answer := do
  let exchange : Exchange ← ExceptT.lift (Plan.ask (.post post))
  ofExcept (exchange.answer provider)

end Calling

end ModelRelay
