import LightPeer.Session.Connection

/-!
# Writing to the peer

A message is framed and put behind the bytes that are still to be written; then as
much as possible is written.  Bytes that could not be written stay, and go out in
front of the next message.  A message is not put behind many such bytes: it waits
until they are written.

A filter is handed over only to a peer that has completed the handshake and offers
filtering, and only if something is watched.
-/

namespace LightPeer

/-- How far a piece of work has come. -/
inductive Progress
  | done
  /-- The peer does not take more bytes.  A message that is not yet among the bytes to be written is
  `unsent`.  A reply goes on from here when the peer takes bytes again, as `carryOn` says.  A call
  of the owner does not:  it is given up where it has come to, and what it has put among the bytes
  to be written goes out in front of the next message. -/
  | blocked (unsent : Option Outgoing)
  | failed (cause : SessionError)
  deriving DecidableEq

namespace Connection

/-- With this many bytes to be written, they are written before a message is added. -/
def highWater : Nat := 8192

/-- Writes what is still to be written. -/
def flush (c : Connection) : Connection × Progress :=
  match c.writer with
  | none => (c, .failed .notConnected)
  | some pending =>
    let (link, rest, result) := c.link.write pending
    ({ c with link, writer := some rest },
      match result with
      | .done => .done
      | .blocked => .blocked none
      | .failed text => .failed (.framing (.io text)))

/-- Puts a message behind the bytes to be written, and writes. -/
def push (m : Outgoing) (c : Connection) : Connection × Progress :=
  match c.writer with
  | none => (c, .failed .notConnected)
  | some pending =>
    let frame := Frame.encode c.config.network.magic m.command m.payload
    { c.record (.sent m) with writer := some (pending ++ frame) }.flush

/-- Sends a message. -/
def transmit (m : Outgoing) (c : Connection) : Connection × Progress :=
  if highWater ≤ (c.writer.getD []).length then
    match c.flush with
    | (c, .done) => c.push m
    | (c, .blocked _) => (c, .blocked (some m))
    | (c, .failed cause) => (c, .failed cause)
  else c.push m

/-- Goes on with a reply that the peer has not taken. -/
def carryOn (unsent : Option Outgoing) (c : Connection) : Connection × Progress :=
  match unsent with
  | none => c.flush
  | some m => c.transmit m

/-- A filter for all that is watched. -/
def filterFor (watched : List Watched) (rate : Rate) (tweak : UInt32) : BloomFilter :=
  watched.foldl (fun filter w => filter.insert w.hash.bytes)
    (BloomFilter.new watched.length rate tweak)

/-- Notes that the peer has a filter. -/
def markLoaded (c : Connection) : Connection :=
  { c with session := { c.session with filterLoaded := true } }

/-- Hands the peer a filter for all that is watched, under a new tweak. -/
def transmitFilter (c : Connection) : Connection × Progress :=
  if c.session.stage ≠ .ready then (c, .failed .notConnected)
  else if ! c.session.services.contains .bloom then (c, .failed .filterNotSupported)
  else if ! c.hasFilter then (c, .done)
  else
    let (word, dice) := c.dice.roll
    let filter := filterFor c.watched c.policy.rate word.toUInt32
    match { c with dice }.transmit (.filterLoad (.ofFilter filter c.policy.update)) with
    | (c, .done) => (c.markLoaded, .done)
    | stopped => stopped

/-- Whether a reply is on its way, so that other messages have to wait. -/
def isReplying (c : Connection) : Bool :=
  match c.task with
  | .replying .. => true
  | _ => false

/-- Sends a message for the owner of the connection.  While a reply is on its way the message has to
wait, and with it the owner, who is told so; nothing is kept of the message in that case. -/
def send (m : Outgoing) (c : Connection) : Connection × Progress :=
  if c.isReplying then (c, .blocked (some m)) else c.transmit m

/-- Hands the peer a filter for the owner of the connection.  A filter that the peer does not take
at once stays among the bytes to be written, but it is not noted that the peer has one. -/
def loadFilter (c : Connection) : Connection × Progress :=
  if c.isReplying && c.hasFilter && c.session.stage = .ready &&
      c.session.services.contains .bloom then (c, .blocked none)
  else c.transmitFilter

end Connection

end LightPeer
