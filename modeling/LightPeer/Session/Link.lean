import LightPeer.Bytes.Basic

/-!
# Links

A link is a stream of bytes in both directions between this side and a peer, with
all that can go wrong on it.  Bytes that the peer has sent lie in `inbound` until
they are read, bytes that were written lie in `outbound` until the peer takes
them.  A peer that does not read leaves room for a number of bytes only, and a
writer that needs more has to wait.
-/

namespace LightPeer

/-- What follows the last byte that the peer has sent. -/
inductive Ending
  | closed
  | failed (text : String)
  deriving DecidableEq, Repr

/-- What is known of the end after more has been learnt of it.  A failure stands, and a
mere end gives way to it. -/
def Ending.revise : Option Ending → Option Ending → Option Ending
  | some (.failed text), _ => some (.failed text)
  | known, none => known
  | _, learnt => learnt

/-- A stream of bytes in both directions. -/
structure Link where
  /-- Sent by the peer and not yet read. -/
  inbound : Bytes := []
  ending : Option Ending := none
  /-- The most bytes that one read yields; zero stands for no limit. -/
  readLimit : Nat := 0
  /-- Written and not yet taken by the peer. -/
  outbound : Bytes := []
  /-- How many bytes may lie untaken, if the peer does not read. -/
  room : Option Nat := none
  /-- Whether writing fails. -/
  failWrites : Bool := false
  /-- Whether closing never comes to an end. -/
  stallClose : Bool := false
  /-- Whether this side has closed the link. -/
  closed : Bool := false
  deriving DecidableEq, Inhabited

/-- How an attempt to write ended. -/
inductive WriteResult
  | done
  | blocked
  | failed (text : String)
  deriving DecidableEq, Repr

namespace Link

/-- The most bytes that one read yields to a reader with room for `room` bytes. -/
def portion (l : Link) (room : Nat) : Nat :=
  if l.readLimit = 0 then room else min l.readLimit room

/-- A reader with room gets on. -/
theorem portion_pos {l : Link} {room : Nat} (h : 0 < room) : 0 < l.portion room := by
  unfold portion
  split <;> omega

/-- Writes as many bytes as possible, and gives back the others. -/
def write (l : Link) (bs : Bytes) : Link × Bytes × WriteResult :=
  if bs.isEmpty then (l, bs, .done)
  else if l.failWrites then (l, bs, .failed "broken pipe")
  else
    match l.room with
    | none => ({ l with outbound := l.outbound ++ bs }, [], .done)
    | some room =>
      let free := room - l.outbound.length
      let rest := bs.drop free
      ({ l with outbound := l.outbound ++ bs.take free }, rest,
        if rest.isEmpty then .done else .blocked)

/-- More bytes from the peer, and perhaps the end of them. -/
def receive (l : Link) (bs : Bytes) (ending : Option Ending) : Link :=
  { l with inbound := l.inbound ++ bs, ending := Ending.revise l.ending ending }

end Link

end LightPeer
