import LightPeer.Frame.Basic

/-!
# Intake

Bytes that have been read and belong to no whole frame yet are held in a store of
limited size, and one read brings no more than the store has room for.  What is
taken from the front of the store leaves a gap there.  When more room is needed, the
bytes move to the front, if that is enough and they are no longer than the gap; in
all other cases the store grows, to twice its size at least.

`Intake.le_room_reserve` says that the room asked for is there afterwards, so that a
reader which asks for one byte always gets on.
-/

namespace LightPeer

/-- The store of a reader. -/
structure Intake where
  /-- The bytes of an unfinished frame. -/
  held : Bytes := []
  /-- The length of the gap in front of them. -/
  gap : Nat := 0
  /-- How many bytes fit into the store, the gap included. -/
  size : Nat := 8192
  deriving DecidableEq, Inhabited

/-- What has been received and not handled yet: messages, the fault behind them if there
is one, and the store with the bytes that are left. -/
structure Backlog where
  messages : List Message
  fault : Option Frame.Error
  intake : Intake

namespace Intake

/-- How many bytes can be added. -/
def room (i : Intake) : Nat := i.size - (i.gap + i.held.length)

/-- Makes room for `n` more bytes, if there is less. -/
def reserve (n : Nat) (i : Intake) : Intake :=
  if n ≤ i.room then i
  else if i.held.length + n ≤ i.size ∧ i.held.length ≤ i.gap then { i with gap := 0 }
  else { i with size := max (2 * i.size) (i.gap + i.held.length + n) }

/-- There is room for what was asked for. -/
theorem le_room_reserve (n : Nat) (i : Intake) : n ≤ (i.reserve n).room := by
  unfold reserve
  split
  · assumption
  · split <;> simp only [room] <;> omega

/-- Making room changes none of the bytes. -/
@[simp] theorem held_reserve (n : Nat) (i : Intake) : (i.reserve n).held = i.held := by
  unfold reserve
  split
  · rfl
  · split <;> rfl

/-- Adds bytes that were read and takes all messages that are complete.  Room is made for
the rest of a frame whose header is there. -/
def receive (magic bs : Bytes) (i : Intake) : Backlog :=
  let stream := i.held ++ bs
  let ⟨messages, fault, rest⟩ := Frame.drain magic stream
  let left := { i with held := rest, gap := i.gap + (stream.length - rest.length) }
  ⟨messages, fault, left.reserve (Frame.missing rest)⟩

end Intake

end LightPeer
