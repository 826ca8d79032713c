import ModelRelay.Relay.Call

/-!
# Traffic

Many calls go through one dispatcher at a time. Each is somewhere between two of its steps, and
whose turn comes next is not the dispatcher's choice: *happenings* in any order that each can
happen are a way the traffic may go. A call that streams its answer leaves a task behind, which
forwards the stream and records what it took. While the task is not over it holds a guard, and the
guards are counted.

Dispatchers that are copies of one another share the count and all else, so their traffic is one.
-/

set_option autoImplicit false

namespace ModelRelay

/-- A step and what it was answered. -/
structure Entry where
  effect : Effect
  answer : effect.Answer

namespace Dispatcher

/-- The session that streams an answer to the caller of a route. -/
def session (d : Dispatcher) (route : Route) (fresh : Fresh) (answer : Provider.Answer) :
    Delivery.Session ((d.adaptor route).eventDecoder route fresh) :=
  Adaptor.session _ route (d.sink {}) answer.items

end Dispatcher

namespace Traffic

/-- The task that forwards a stream. -/
inductive Task where
  | forwarding
  /-- The stream is over, and what it took is being recorded. -/
  | billing (rest : Plan Unit)
  | ended
  /-- It was stopped from outside. -/
  | stopped

/-- Where a call is. -/
inductive Stage where
  | opening (rest : Plan (Except RelayError Opening))
  | failed (e : RelayError)
  | whole (body : Json) (usage : Chat.Usage)
  /-- The caller reads a stream, in whose session some moves have been made. -/
  | streaming (route : Route) (answer : Provider.Answer) (moves : List Delivery.Move) (task : Task)
  /-- The provider refuses to stream, and the end of what it says to that does not come. -/
  | waiting
  /-- The caller went away before it was answered. -/
  | abandoned

/-- What becomes of the guard of a call. -/
inductive Guard where
  | acquired
  | kept
  | dropped

/-- The count of streams after that. -/
def Guard.count (count : UInt64) : Guard → UInt64
  | acquired => count + 1
  | kept => count
  | dropped => count - 1

/-- A call, with the steps it has taken. -/
structure Call where
  caller : Caller
  body : StoredBody
  fresh : Fresh
  log : List Entry := []
  stage : Stage

/-- Where a call is with a plan. A stream gets its guard before its task begins. -/
def Stage.ofPlan : Plan (Except RelayError Opening) → Stage × Guard
  | .done (.error e) => (.failed e, .kept)
  | .done (.ok (.whole body usage)) => (.whole body usage, .kept)
  | .done (.ok (.stream route answer)) => (.streaming route answer [] .forwarding, .acquired)
  | .done (.ok .waiting) => (.waiting, .kept)
  | rest => (.opening rest, .kept)

/-- Where a task is with a plan. Its end drops the guard. -/
def Task.ofPlan : Plan Unit → Task × Guard
  | .done () => (.ended, .dropped)
  | rest => (.billing rest, .kept)

namespace Call

/-- A call comes in. -/
def start (d : Dispatcher) (caller : Caller) (body : StoredBody) (fresh : Fresh) : Call × Guard :=
  let (stage, guard) :=
    match body.settle with
    | .error e => (.failed e, .kept)
    | .ok (request, _) => Stage.ofPlan (d.begin caller request fresh).run
  ({ caller, body, fresh, stage }, guard)

/-- The step that a call waits for is answered. -/
def answered? (answer : (effect : Effect) → effect.Answer) (c : Call) : Option (Call × Guard) :=
  match c.stage with
  | .opening (.step effect next) =>
    let (stage, guard) := Stage.ofPlan (next (answer effect))
    some ({ c with log := c.log ++ [⟨effect, answer effect⟩], stage }, guard)
  | .streaming route body moves (.billing (.step effect next)) =>
    let (task, guard) := Task.ofPlan (next (answer effect))
    some ({ c with
      log := c.log ++ [⟨effect, answer effect⟩], stage := .streaming route body moves task }, guard)
  | _ => none

/-- A move is made in the session of a stream. -/
def moved? (d : Dispatcher) (m : Delivery.Move) (c : Call) : Option (Call × Guard) :=
  match c.stage with
  | .streaming _ _ _ .stopped => none
  | .streaming route answer moves task =>
    match (d.session route c.fresh answer).play (moves ++ [m]) with
    | some _ => some ({ c with stage := .streaming route answer (moves ++ [m]) task }, .kept)
    | none => none
  | _ => none

/-- The task of a stream turns from a session that is over to the bill. A failure is not billed. -/
def finished? (d : Dispatcher) (c : Call) : Option (Call × Guard) :=
  match c.stage with
  | .streaming route answer moves .forwarding =>
    match ((d.session route c.fresh answer).play moves).bind (·.courier.result?) with
    | some (.ok outcome) =>
      let (task, guard) := Task.ofPlan (Dispatcher.bill route outcome.usage)
      some ({ c with stage := .streaming route answer moves task }, guard)
    | some (.error _) => some ({ c with stage := .streaming route answer moves .ended }, .dropped)
    | none => none
  | _ => none

/-- A call is given up before it is answered, or its task is stopped. -/
def stopped? (c : Call) : Option (Call × Guard) :=
  match c.stage with
  | .opening _ | .waiting => some ({ c with stage := .abandoned }, .kept)
  | .streaming route answer moves .forwarding | .streaming route answer moves (.billing _) =>
    some ({ c with stage := .streaming route answer moves .stopped }, .dropped)
  | _ => none

end Call

/-- One thing that happens in the traffic. Calls are numbered in the order in which they come. -/
inductive Happening where
  | call (caller : Caller) (body : StoredBody) (fresh : Fresh)
  | answered (i : Nat) (answer : (effect : Effect) → effect.Answer)
  | moved (i : Nat) (m : Delivery.Move)
  | finished (i : Nat)
  | stopped (i : Nat)

end Traffic

/-- All that goes through a dispatcher: every call there has been, and the count of streams. -/
structure Traffic where
  calls : List Traffic.Call := []
  activeStreams : UInt64 := 0

namespace Traffic

/-- Changes one call, and the count with it. -/
def change? (t : Traffic) (i : Nat) (f : Call → Option (Call × Guard)) : Option Traffic := do
  let (c, guard) ← f (← t.calls[i]?)
  return { calls := t.calls.set i c, activeStreams := guard.count t.activeStreams }

/-- The traffic after a happening, if it can happen. -/
def happen? (d : Dispatcher) (t : Traffic) : Happening → Option Traffic
  | .call caller body fresh =>
    let (c, guard) := Call.start d caller body fresh
    some { calls := t.calls ++ [c], activeStreams := guard.count t.activeStreams }
  | .answered i answer => t.change? i (·.answered? answer)
  | .moved i m => t.change? i (·.moved? d m)
  | .finished i => t.change? i (·.finished? d)
  | .stopped i => t.change? i (·.stopped?)

/-- What comes of happenings one after the other, if each can happen. -/
def after? (d : Dispatcher) (t : Traffic) : List Happening → Option Traffic
  | [] => some t
  | h :: rest => (t.happen? d h).bind (·.after? d rest)

end Traffic

end ModelRelay
