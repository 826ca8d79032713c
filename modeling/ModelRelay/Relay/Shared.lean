import ModelRelay.Relay.Traffic

/-!
# Shared bodies

Several calls may be made over one stored body at a time. A call takes the bytes that are stored
and settles the request in them by itself; only the body that its model takes instead goes back, in
place of whatever is stored by then. Nothing keeps the others out in between, so *turns* in any
order are a way things may go. A call that is through with the body goes on in the traffic.
-/

set_option autoImplicit false

namespace ModelRelay

namespace SharedBody

/-- How far a call has come with a body. -/
inductive Stage where
  /-- It has taken the bytes. -/
  | reading
  /-- It has settled the request, and another body is to be stored for it. -/
  | replacing (replacement : StoredBody)

/-- A call that is not through with a body. -/
structure Holder where
  caller : Caller
  fresh : Fresh
  /-- What was stored when it looked. -/
  taken : StoredBody
  stage : Stage := .reading

end SharedBody

/-- A stored body, the calls that are not through with it, and the traffic of those that are. -/
structure SharedBody where
  stored : StoredBody
  holders : List SharedBody.Holder := []
  traffic : Traffic := {}

namespace SharedBody

/-- One thing that comes next. -/
inductive Turn where
  /-- A call takes the bytes. -/
  | take (caller : Caller) (fresh : Fresh)
  | settle (i : Nat)
  | replace (i : Nat)
  /-- Something happens to those who are through with the body, or to calls over another one. -/
  | traffic (h : Traffic.Happening)

/-- A call that is through with the body goes on with the request that it took. -/
def leave? (d : Dispatcher) (s : SharedBody) (i : Nat) (holder : Holder) : Option SharedBody := do
  let traffic ← s.traffic.happen? d (.call holder.caller holder.taken holder.fresh)
  return { s with holders := s.holders.eraseIdx i, traffic }

/-- A call settles the request in the bytes that it took. If they hold none, it fails. -/
def settle? (d : Dispatcher) (s : SharedBody) (i : Nat) (holder : Holder) : Option SharedBody :=
  match holder.stage, holder.taken.settle with
  | .reading, .ok (_, some replacement) =>
    some { s with holders := s.holders.set i { holder with stage := .replacing replacement } }
  | .reading, _ => s.leave? d i holder
  | .replacing _, _ => none

/-- A call stores the body that its model takes. -/
def replace? (d : Dispatcher) (s : SharedBody) (i : Nat) (holder : Holder) : Option SharedBody :=
  match holder.stage with
  | .replacing replacement => { s with stored := replacement }.leave? d i holder
  | .reading => none

/-- What comes of a turn, if it can be taken. -/
def turn? (d : Dispatcher) (s : SharedBody) : Turn → Option SharedBody
  | .take caller fresh =>
    some { s with holders := s.holders ++ [{ caller, fresh, taken := s.stored }] }
  | .settle i => do s.settle? d i (← s.holders[i]?)
  | .replace i => do s.replace? d i (← s.holders[i]?)
  | .traffic h => do return { s with traffic := ← s.traffic.happen? d h }

/-- What comes of turns one after the other, if each can be taken. -/
def after? (d : Dispatcher) (s : SharedBody) : List Turn → Option SharedBody
  | [] => some s
  | t :: rest => (s.turn? d t).bind (·.after? d rest)

end SharedBody

end ModelRelay
