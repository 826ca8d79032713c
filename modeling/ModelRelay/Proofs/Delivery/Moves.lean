import ModelRelay.Delivery.Session
import ModelRelay.Proofs.Delivery.Progress

/-!
# What a session can do

`Step` says once what each move needs and what it changes, one constructor a move; **everything a
session can do is a step** (`step_of_move?`), and so every invariant of a session is an induction
over a play whose step is a case analysis of it.

Two accounts are kept along a play that the session itself does not keep: what has come from the
provider (`Move.arrivals`) and what the mailbox has taken in (`accepted`). The second cannot be read
off the session once the caller has left, because what was buffered then is lost.

A move that cannot be made is not an error of the model but a party that has to wait, and a play
with such a move in it is none. So a statement about all plays is one about all orders in which the
parties can move at all.
-/

set_option autoImplicit false

namespace ModelRelay

namespace Mailbox

variable {α : Type}

/-- A frame is accepted by a mailbox that is open and has room, and goes to the end of the queue. -/
theorem send_accepted {m m' : Mailbox α} {a : α} (h : m.send a = .accepted m') :
    m.isOpen = true ∧ m.queue.length < m.capacity ∧ m' = { m with queue := m.queue ++ [a] } := by
  unfold send at h
  split at h
  · exact absurd h (by simp)
  · split at h
    · exact absurd h (by simp)
    · rename_i hopen hfull
      refine ⟨by simpa using hopen, by simpa [isFull] using hfull, ?_⟩
      exact (Sending.accepted.inj h).symm

theorem send_expired {m : Mailbox α} {a : α} (h : m.send a = .expired) : m.isOpen = true := by
  unfold send at h
  split at h
  · exact absurd h (by simp)
  · rename_i hopen
    simpa using hopen

/-- A frame is refused by a mailbox that is closed. -/
theorem send_refused {m : Mailbox α} {a : α} (h : m.send a = .refused) : m.isOpen = false := by
  unfold send at h
  split at h
  · rename_i hclosed
    simpa using hclosed
  · split at h <;> exact absurd h (by simp)

theorem receive?_some {m m' : Mailbox α} {a : α} (h : m.receive? = some (a, m')) :
    ∃ rest, m.queue = a :: rest ∧ m' = { m with queue := rest } := by
  unfold receive? at h
  split at h
  · exact absurd h (by simp)
  · rename_i b rest hq
    obtain ⟨rfl, rfl⟩ := Prod.mk.inj (Option.some.inj h)
    exact ⟨rest, hq, rfl⟩

end Mailbox

namespace Delivery

open Sse

namespace Move

/-- What comes from the provider in a move. -/
def arrival : Move → List Item
  | .arrive item => [item]
  | _ => []

/-- What comes from the provider in the course of some moves. -/
def arrivals (moves : List Move) : List Item :=
  moves.flatMap arrival

theorem arrivals_cons (m : Move) (moves : List Move) :
    arrivals (m :: moves) = m.arrival ++ arrivals moves := by
  rw [arrivals, List.flatMap_cons, arrivals]

/-- How the courier loses its caller in a move: it finds it gone, or waits for it no longer. -/
def loss? (patience : Nat) : Move → Option CancelFault
  | .expire => some (.stalled patience)
  | .refuse | .notice => some .left
  | _ => none

end Move

namespace Session

variable {d : EventDecoder} {s s' : Session d}

/-- What each move needs, and the session after it. -/
inductive Step (s : Session d) : Move → Session d → Prop where
  | arrive (item : Item) : Step s (.arrive item) { s with incoming := s.incoming ++ [item] }
  | read {item : Item} {rest : List Item} (reading : s.courier.stage = .reading)
      (next : s.incoming = item :: rest) (here : s.mailbox.isOpen = true) :
      Step s .read { s with incoming := rest, courier := s.courier.take item }
  | accept {frame : Frame} {waiting : List Frame} {goal : Goal}
      (sending : s.courier.stage = .sending frame waiting goal) (here : s.mailbox.isOpen = true)
      (room : s.mailbox.queue.length < s.mailbox.capacity) :
      Step s .accept
        { s with
          mailbox := { s.mailbox with queue := s.mailbox.queue ++ [frame] }
          courier := s.courier.accepted }
  | expire {frame : Frame} {waiting : List Frame} {goal : Goal}
      (sending : s.courier.stage = .sending frame waiting goal) (here : s.mailbox.isOpen = true) :
      Step s .expire { s with courier := s.courier.lost (.stalled s.patience) }
  | refuse {frame : Frame} {waiting : List Frame} {goal : Goal}
      (sending : s.courier.stage = .sending frame waiting goal)
      (gone : s.mailbox.isOpen = false) :
      Step s .refuse { s with courier := s.courier.lost .left }
  | notice (reading : s.courier.stage = .reading) (gone : s.mailbox.isOpen = false) :
      Step s .notice { s with courier := s.courier.lost .left }
  | receive {frame : Frame} {rest : List Frame} (next : s.mailbox.queue = frame :: rest) :
      Step s .receive
        { s with
          mailbox := { s.mailbox with queue := rest }
          received := s.received ++ [frame] }
  | leave : Step s .leave { s with mailbox := s.mailbox.close }

/-- **Everything a session can do is a step.** -/
theorem step_of_move? {m : Move} (h : s.move? m = some s') : Step s m s' := by
  -- The conditions of each move are unfolded here and in no other place.
  cases m with
  | arrive item => exact Option.some.inj h ▸ .arrive item
  | read =>
    simp only [move?] at h
    split at h
    · rename_i item rest hstage hin
      split at h
      · rename_i hopen
        exact Option.some.inj h ▸ .read hstage hin hopen
      · exact absurd h (by simp)
    · exact absurd h (by simp)
  | accept =>
    simp only [move?] at h
    split at h
    · rename_i frame waiting goal hstage
      split at h
      · rename_i mailbox hsend
        obtain ⟨hopen, hroom, rfl⟩ := Mailbox.send_accepted hsend
        exact Option.some.inj h ▸ .accept hstage hopen hroom
      · exact absurd h (by simp)
    · exact absurd h (by simp)
  | expire =>
    simp only [move?] at h
    split at h
    · rename_i frame waiting goal hstage
      split at h
      · rename_i hsend
        exact Option.some.inj h ▸ .expire hstage (Mailbox.send_expired hsend)
      · exact absurd h (by simp)
    · exact absurd h (by simp)
  | refuse =>
    simp only [move?] at h
    split at h
    · rename_i frame waiting goal hstage
      split at h
      · rename_i hsend
        exact Option.some.inj h ▸ .refuse hstage (Mailbox.send_refused hsend)
      · exact absurd h (by simp)
    · exact absurd h (by simp)
  | notice =>
    simp only [move?] at h
    split at h
    · rename_i hstage
      split at h
      · exact absurd h (by simp)
      · rename_i hopen
        exact Option.some.inj h ▸ .notice hstage (by simpa using hopen)
    · exact absurd h (by simp)
  | receive =>
    simp only [move?, Option.map_eq_some_iff, Prod.exists] at h
    obtain ⟨frame, mailbox, hrec, rfl⟩ := h
    obtain ⟨rest, hq, rfl⟩ := Mailbox.receive?_some hrec
    exact .receive hq
  | leave => exact Option.some.inj h ▸ .leave

/-! ## Plays

A play is a list of moves that can be made one after the other. -/

theorem play_nil : s.play [] = some s := rfl

theorem play_cons (m : Move) (moves : List Move) :
    s.play (m :: moves) = (s.move? m).bind (·.play moves) := rfl

theorem play_append (moves more : List Move) :
    s.play (moves ++ more) = (s.play moves).bind (·.play more) := by
  induction moves generalizing s with
  | nil => rfl
  | cons m moves ih =>
    rw [List.cons_append, play_cons, play_cons, Option.bind_assoc]
    exact Option.bind_congr fun s₁ _ => ih

/-- The move that a play begins with can be made, and the rest goes on from there. -/
theorem play_cons_some {m : Move} {moves : List Move} (h : s.play (m :: moves) = some s') :
    ∃ s₁, s.move? m = some s₁ ∧ s₁.play moves = some s' := by
  rw [play_cons] at h
  exact Option.bind_eq_some_iff.mp h

/-- The frame that the mailbox takes in in a move. -/
def handed (s : Session d) : Move → List Frame
  | .accept =>
    match s.courier.stage with
    | .sending frame _ _ => [frame]
    | _ => []
  | _ => []

/-- The frames that the mailbox takes in in the course of some moves. -/
def accepted (s : Session d) : List Move → List Frame
  | [] => []
  | m :: moves => s.handed m ++ ((s.move? m).map (·.accepted moves)).getD []

theorem accepted_cons {m : Move} {s₁ : Session d} (h : s.move? m = some s₁) (moves : List Move) :
    s.accepted (m :: moves) = s.handed m ++ s₁.accepted moves := by
  rw [accepted, h]
  rfl

theorem handed_accept {frame : Frame} {waiting : List Frame} {goal : Goal}
    (h : s.courier.stage = .sending frame waiting goal) : s.handed .accept = [frame] := by
  rw [handed, h]

end Session

end Delivery

end ModelRelay
