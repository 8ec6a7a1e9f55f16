import LightPeer.Session.Outbound

/-!
# Reading from the peer

Bytes are read in portions, as many at a time as there is room for.  Each portion is
put behind the bytes of the frame in progress, and all messages that are then complete
are handled in order before more is read.  The session ends when a message cannot be
handled, when the bytes are no row of frames, or when the peer has closed the link.

A reply that the peer does not take holds everything up: the messages behind it, and
the bytes behind these, wait until it is written.
-/

namespace LightPeer

namespace Connection

/-- Closes the link and forgets the bytes that were still to be written. -/
def hangUp (c : Connection) : Connection :=
  { c with writer := none, link := { c.link with closed := c.link.closed || c.writer.isSome } }

/-- Leaves the session, the end of which counts as made known from here on. -/
def part (c : Connection) : Connection :=
  { c with
    session := { c.session with filterLoaded := false }
    signals := { c.signals with parted := true } }.enter .disconnected

/-- Ends the session and tells the listeners, unless somebody has already seen to it that they
are told. -/
def endSession (c : Connection) : Connection :=
  if c.signals.parted then c.part else emit .connection .disconnected c.part

/-- Ends the session from the side that reads. -/
def conclude (c : Connection) : Connection :=
  if c.link.stallClose then { c with writer := none, task := .closing }
  else { c.hangUp.endSession with task := .finished }

/-- Reports a failure that ends the session. -/
def abandon (c : Connection) (cause : SessionError) : Connection :=
  (c.notice (.sessionFailed c.session.peer cause)).conclude

/-- What is asked of the peer when it announces objects: transactions, and blocks in the
form that fits the filter. -/
def wanted (filtered : Bool) (entries : List Inventory) : List Inventory :=
  entries.filterMap fun entry =>
    match entry.kind with
    | .tx => some entry
    | .block => some (if filtered then { entry with kind := .filteredBlock } else entry)
    | _ => none

/-- The peer introduces itself. -/
def onVersion (v : Version) (c : Connection) : Connection × Progress :=
  let version := min v.version c.config.protocolVersion
  let c := { c with
    session := { c.session with
      services := v.services, userAgent := some v.userAgent, version := some version } }
  if confirmedSince ≤ version then c.transmit .verack else (c, .done)

/-- The peer confirms the handshake. -/
def onVerack (c : Connection) : Connection × Progress :=
  let c := emit .connection .verack (c.enter .ready)
  if c.hasFilter then c.transmitFilter else (c, .done)

/-- The peer asks for a sign of life. -/
def onPing (p : Ping) (c : Connection) : Connection × Progress :=
  match p.nonce with
  | some nonce => c.transmit (.pong ⟨nonce⟩)
  | none => (c, .done)

/-- The peer announces objects. -/
def onInventory (entries : List Inventory) (c : Connection) : Connection × Progress :=
  let entries := wanted c.session.filterLoaded entries
  if entries.isEmpty then (c, .done) else c.transmit (.getData entries)

/-- The peer sends a proof that some transactions belong to a block. -/
def onMerkleBlock (b : MerkleBlock) (c : Connection) : Connection × Progress :=
  match FilteredBlock.ofMerkleBlock b with
  | .error cause => (c, .failed (.invalidMerkleBlock b.hash cause))
  | .ok block => (emit .block (.filtered block) c, .done)

/-- Handles a message. -/
def handle (m : Message) (c : Connection) : Connection × Progress :=
  match m with
  | .version v => c.onVersion v
  | .verack => c.onVerack
  | .ping p => c.onPing p
  | .inv entries => c.onInventory entries
  | .tx tx => (emit .transaction tx c, .done)
  | .block b => (emit .block (.full b) c, .done)
  | .merkleBlock b => c.onMerkleBlock b

/-- Why the handling of a row of messages ended. -/
inductive Stop
  | handled
  /-- A reply is not written yet; these messages come behind it. -/
  | blocked (unsent : Option Outgoing) (rest : List Message) (loading : Bool)
  | failed (cause : SessionError)

/-- Handles messages in order. -/
def dispatch : List Message → Connection → Connection × Stop
  | [], c => (c, .handled)
  | m :: ms, c =>
    match (c.record (.received m)).handle m with
    | (c, .done) => dispatch ms c
    | (c, .blocked unsent) => (c, .blocked unsent ms (m = .verack))
    | (c, .failed cause) => (c, .failed cause)

/-- Handles what has been received. -/
def proceed (received : Backlog) (c : Connection) : Connection :=
  match dispatch received.messages c with
  | (c, .failed cause) => c.abandon cause
  | (c, .blocked unsent messages loading) =>
    { c with task := .replying unsent { received with messages } loading }
  | (c, .handled) =>
    match received.fault with
    | some fault => c.abandon (.framing fault)
    | none => { c with task := .reading received.intake }

/-- Leaves these bytes on the link. -/
def leave (waiting : Bytes) (c : Connection) : Connection :=
  { c with link := { c.link with inbound := waiting } }

/-- Reads and handles bytes that wait on the link, as long as the session reads. -/
def readFrom (waiting : Bytes) (c : Connection) : Connection :=
  match c.task with
  | .reading left =>
    if _some : waiting = [] then c
    else
      let intake := left.reserve 1
      let size := c.link.portion intake.room
      let received := intake.receive c.config.network.magic (waiting.take size)
      readFrom (waiting.drop size) ((c.leave (waiting.drop size)).proceed received)
  | _ => c
termination_by waiting.length
decreasing_by
  have := Link.portion_pos (l := c.link) (Intake.le_room_reserve 1 left)
  have := List.length_pos_iff.mpr _some
  simp only [List.length_drop]
  omega

/-- Looks at what follows the last byte, if all bytes have been read. -/
def readEnding (c : Connection) : Connection :=
  match c.task, c.link.ending with
  | .reading _, some (.failed text) => c.abandon (.framing (.io text))
  | .reading intake, some .closed =>
    match Frame.nextAtEnd c.config.network.magic intake.held with
    | .fault fault _ => c.abandon (.framing fault)
    | _ => c.conclude
  | _, _ => c

/-- Reads all that the peer has sent. -/
def read (c : Connection) : Connection := (c.readFrom c.link.inbound).readEnding

/-- Goes on with a reply that was held up, and then with the messages behind it. -/
def resume (c : Connection) : Connection :=
  match c.task with
  | .replying unsent backlog loading =>
    match c.carryOn unsent with
    | (c, .done) => (if loading then c.markLoaded else c).proceed backlog
    | (c, .blocked unsent) => { c with task := .replying unsent backlog loading }
    | (c, .failed cause) => c.abandon cause
  | _ => c

/-- A reader that is not to go on ends the session. -/
def halt (c : Connection) : Connection :=
  match c.task with
  | .reading _ => c.conclude
  | .replying .. => c.conclude
  | _ => c

/-- Does all that can be done without the peer.  Only the owner says that the reader is not to go
on, and never in the midst of this, so it is enough to look once.  A reader that waits for its link
to be closed stays as it is, also when the link would now come to be closed. -/
def settle (c : Connection) : Connection :=
  if c.signals.stopping then c.halt else c.resume.read

end Connection

end LightPeer
