import ModelRelay.Delivery.Mailbox
import ModelRelay.Delivery.Courier

/-!
# Streaming sessions

A session is all that takes part in a stream: what has come from the provider, the courier,
the mailbox, and the frames the caller has received. It changes by *moves*, and any order of moves
that each can be made is a way the session may go. `run` is one of these ways, for a session in
which all has come that ever will: the courier goes on until it has to wait, and only then is it
the caller's turn.
-/

set_option autoImplicit false

namespace ModelRelay.Delivery

open Sse

structure Session (d : EventDecoder) where
  /-- What has come from the provider and is not read yet. -/
  incoming : List Item
  courier : Courier d
  mailbox : Mailbox Frame
  received : List Frame := []
  /-- The time in milliseconds that a frame may wait to be sent. -/
  patience : Nat

/-- One thing that happens in a session. -/
inductive Move where
  /-- An item comes from the provider. -/
  | arrive (item : Item)
  /-- The courier reads the next item. -/
  | read
  /-- The frame that is being sent is accepted. -/
  | accept
  /-- It has waited too long. -/
  | expire
  /-- It cannot be delivered any more. -/
  | refuse
  /-- Between items the courier sees that the caller is gone. -/
  | notice
  /-- The caller receives a frame. -/
  | receive
  /-- The caller leaves. -/
  | leave
deriving DecidableEq, Repr

namespace Session

variable {d : EventDecoder}

/-- The session after a move, if the move can be made. -/
def move? (s : Session d) : Move → Option (Session d)
  | .arrive item => some { s with incoming := s.incoming ++ [item] }
  | .read =>
    match s.courier.stage, s.incoming with
    | .reading, item :: rest =>
      if s.mailbox.isOpen then
        some { s with incoming := rest, courier := s.courier.take item }
      else none
    | _, _ => none
  | .accept =>
    match s.courier.stage with
    | .sending frame _ _ =>
      match s.mailbox.send frame with
      | .accepted mailbox => some { s with mailbox, courier := s.courier.accepted }
      | _ => none
    | _ => none
  | .expire =>
    match s.courier.stage with
    | .sending frame _ _ =>
      match s.mailbox.send frame with
      | .expired => some { s with courier := s.courier.lost (.stalled s.patience) }
      | _ => none
    | _ => none
  | .refuse =>
    match s.courier.stage with
    | .sending frame _ _ =>
      match s.mailbox.send frame with
      | .refused => some { s with courier := s.courier.lost .left }
      | _ => none
    | _ => none
  | .notice =>
    match s.courier.stage with
    | .reading =>
      if s.mailbox.isOpen then none else some { s with courier := s.courier.lost .left }
    | _ => none
  | .receive =>
    s.mailbox.receive?.map fun (frame, mailbox) =>
      { s with mailbox, received := s.received ++ [frame] }
  | .leave => some { s with mailbox := s.mailbox.close }

/-- Makes moves as long as each can be made. -/
def play (s : Session d) : List Move → Option (Session d)
  | [] => some s
  | m :: rest => (s.move? m).bind (·.play rest)

/-- Makes the first of some moves that can be made. -/
def tryMoves (s : Session d) (moves : List Move) : Session d :=
  (moves.findSome? s.move?).getD s

/-! ## One way a session may go -/

/-- How a caller behaves. -/
structure Caller where
  /-- How many frames it still reads; all of them if there is no number. -/
  quota : Option Nat := none
  /-- When it has read enough, it stops reading and stays. -/
  stays : Bool := false

namespace Caller

/-- The caller has read enough. -/
def isDone (c : Caller) : Bool :=
  c.quota == some 0

/-- How many frames the caller takes of those that are there. -/
def takes (c : Caller) (available : Nat) : Nat :=
  match c.quota with
  | none => available
  | some quota => min quota available

/-- The caller after it has read some frames. -/
def afterReading (c : Caller) (count : Nat) : Caller :=
  { c with quota := c.quota.map (· - count) }

end Caller

/-- The caller's turn: it reads what there is, and leaves when it has read enough. -/
def callerTurn (s : Session d) (c : Caller) : Session d × Caller :=
  let count := c.takes s.mailbox.queue.length
  let (frames, mailbox) := s.mailbox.receiveUpTo count
  let s := { s with mailbox, received := s.received ++ frames }
  let c := c.afterReading count
  if c.isDone && !c.stays then (s.tryMoves [.leave], c) else (s, c)

/-- Sends the frames that wait; `fuel` is their number. -/
def flush : Nat → Session d → Caller → Session d × Caller
  | 0, s, c => (s, c)
  | fuel + 1, s, c =>
    if s.courier.pending = 0 then (s, c)
    else
      let (s, c) := if s.mailbox.isFull then s.callerTurn c else (s, c)
      flush fuel (s.tryMoves [.accept, .refuse, .expire]) c

/-- The provider says nothing more, so it is the caller who ends the session. -/
def endInSilence (s : Session d) (c : Caller) : Session d × Caller :=
  match s.courier.stage with
  | .reading =>
    let (s, c) := s.callerTurn c
    let s := { s with received := s.received ++ s.mailbox.queue }
    ((s.tryMoves [.leave]).tryMoves [.notice], c)
  | _ => (s, c)

/-- Reads items and sends their frames; `fuel` is the number of items. -/
def readAll : Nat → Session d → Caller → Session d × Caller
  | 0, s, c => s.endInSilence c
  | fuel + 1, s, c =>
    match s.courier.stage with
    | .reading =>
      let s := s.tryMoves [.notice, .read]
      let (s, c) := s.flush s.courier.pending c
      readAll fuel s c
    | _ => (s, c)

/-- The end: the caller reads what it still wants. One that only stopped reading takes what is
left. -/
def settle (s : Session d) (c : Caller) : Session d :=
  let c := if c.stays then { c with quota := none } else c
  (s.callerTurn c).1

/-- One way a session may go. -/
def run (s : Session d) (c : Caller) : Session d :=
  let (s, c) := s.readAll s.incoming.length c
  s.settle c

/-- A session at its start. -/
def ofItems (incoming : List Item) (native : Bool) (promptTokens : UInt32) (buffer patience : Nat) :
    Session d :=
  { incoming, courier := { native, promptTokens }, mailbox := .ofBuffer buffer, patience }

/-- The result of a session. One that is not over was left by everybody. -/
def result (s : Session d) : Except RelayError Outcome :=
  s.courier.result?.getD (.error (.cancelled .left))

end Session

end ModelRelay.Delivery
