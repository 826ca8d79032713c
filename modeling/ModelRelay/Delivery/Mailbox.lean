/-!
# Mailboxes

What lies between the relay and the caller of a stream: a queue with a bound. A sender waits while
it is full, so the relay is never further ahead of its caller than the bound; once the caller is
gone nothing is taken any more.
-/

set_option autoImplicit false

namespace ModelRelay

/-- A bounded queue between a sender and a receiver who may leave. -/
structure Mailbox (α : Type) where
  capacity : Nat
  /-- What has been sent and not yet received, oldest first. -/
  queue : List α := []
  /-- The receiver is still there. -/
  isOpen : Bool := true
  capacity_pos : 0 < capacity

namespace Mailbox

variable {α : Type}

/-- An empty mailbox. It holds one item at least. -/
def ofBuffer (buffer : Nat) : Mailbox α :=
  { capacity := max 1 buffer, capacity_pos := by omega }

def isFull (m : Mailbox α) : Bool :=
  m.capacity ≤ m.queue.length

/-- What becomes of an item that is sent and waits for a while. -/
inductive Sending (α : Type) where
  | accepted (m : Mailbox α)
  /-- No room came free in the time allowed. -/
  | expired
  /-- The receiver is gone. -/
  | refused

/-- Sends an item. If there is no room, none comes free in the time allowed. -/
def send (m : Mailbox α) (a : α) : Sending α :=
  if !m.isOpen then .refused
  else if m.isFull then .expired
  else .accepted { m with queue := m.queue ++ [a] }

/-- Takes out the oldest item. -/
def receive? (m : Mailbox α) : Option (α × Mailbox α) :=
  match m.queue with
  | [] => none
  | a :: rest => some (a, { m with queue := rest })

/-- Takes out the oldest items, up to a number of them. -/
def receiveUpTo (m : Mailbox α) (count : Nat) : List α × Mailbox α :=
  (m.queue.take count, { m with queue := m.queue.drop count })

/-- The receiver leaves; what was buffered is lost. -/
def close (m : Mailbox α) : Mailbox α :=
  { m with queue := [], isOpen := false }

end Mailbox

end ModelRelay
