import LightPeer.Session.Inbound

/-!
# The life of a connection

What the owner of a connection and the other end of its link can do: begin a
session on an open link, fail to open one, send, end the session, and deliver
bytes.  After each of these the reader goes on as far as it can.  A call of the owner is one
act:  one that cannot be finished at once is not taken up again.
-/

namespace LightPeer

namespace Connection

/-- Begins a session, if none is in progress. -/
def claim (peer : Endpoint) (c : Connection) : Except SessionError Connection :=
  if c.session.isConnected then .error .alreadyConnected
  else .ok ({ c with session := { peer := some peer } }.enter .connecting)

/-- How this side introduces itself.  The peer is asked to announce transactions unless
it is going to be given a filter. -/
def introduction (c : Connection) (peer : Endpoint) (now : Int64) (nonce : UInt64) : Version where
  version := c.config.protocolVersion
  services := .none
  timestamp := now
  receiver := .ofEndpoint .none peer
  sender := .unspecified .none
  nonce
  userAgent := c.config.userAgent
  startHeight := c.config.startHeight
  relay := ! c.hasFilter

/-- Takes up a link, on which nothing has been written. -/
def attach (link : Link) (c : Connection) : Connection :=
  { c with link, writer := some [], signals := c.signals.renew }

/-- The peer has been greeted, and there is a bell for whoever is going to read. -/
def await (c : Connection) : Connection :=
  { c.enter .awaitingVerack with signals := { c.signals with bell := true } }

/-- Sends the introduction over a link to a peer, and begins to read.  If the peer does not take the
introduction, the session stays as it is then, with nobody to read from its link. -/
def start (peer : Endpoint) (link : Link) (now : Int64) (c : Connection) : Connection × Progress :=
  let c := emit .connection .connected (c.attach link)
  let (nonce, dice) := c.dice.roll
  match { c with dice }.transmit (.version (c.introduction peer now nonce)) with
  | (c, .done) => ({ c.await with task := .reading {} }, .done)
  | (c, .blocked unsent) => (c, .blocked unsent)
  | (c, .failed cause) =>
    let c := c.notice (.versionUnsent peer cause)
    if c.link.stallClose then ({ c with writer := none }, .blocked none)
    else (c.hangUp.endSession, .failed cause)

/-- Begins a session with a peer over an open link, at a time.  It is refused as long as there is a
session, also one that has been left without a reader. -/
def connect (peer : Endpoint) (link : Link) (now : Int64) (c : Connection) :
    Connection × Progress :=
  match c.claim peer with
  | .error cause => (c, .failed cause)
  | .ok c =>
    let (c, progress) := c.start peer link now
    (c.settle, progress)

/-- Tries to open a link to a peer, in vain. -/
def dialFailed (peer : Endpoint) (text : String) (c : Connection) : Connection × Progress :=
  match c.claim peer with
  | .error cause => (c, .failed cause)
  | .ok c => ((c.notice (.dialFailed peer text)).enter .disconnected, .failed (.io text))

/-- The owner wants the session to end, and rings for the reader. -/
def ask (c : Connection) : Connection :=
  { c with signals := { c.signals with stopping := true, bell := false } }

/-- Ends the session.  A reader that does not come to an end is given up after a while: one that
sees the link closed, if the link does not close, and one for which there is no bell. -/
def disconnect (c : Connection) : Connection × Progress :=
  match c.task with
  | .none => (c, .failed .notConnected)
  | .finished => ({ c.ask with task := .none }, .done)
  | .closing =>
    if c.link.stallClose then
      ({ (c.ask.notice .readerAborted).endSession with task := .none }, .done)
    else
      ({ { c.ask with link := { c.link with closed := true } }.endSession with task := .none },
        .done)
  | _ =>
    if c.signals.bell then
      if c.link.stallClose then
        ({ ({ c.ask with writer := none }.notice .readerAborted).endSession with task := .none },
          .done)
      else ({ c.ask.hangUp.endSession with task := .none }, .done)
    else if c.link.stallClose then
      ({ c.ask.notice .readerAborted with writer := none, task := .none }, .blocked none)
    else ({ (c.ask.notice .readerAborted).hangUp.endSession with task := .none }, .done)

/-- The peer sends bytes, and perhaps ends the stream. -/
def deliver (bs : Bytes) (ending : Option Ending) (c : Connection) : Connection :=
  { c with link := c.link.receive bs ending }.settle

/-- The link changes its ways. -/
def relink (change : Link → Link) (c : Connection) : Connection :=
  { c with link := change c.link }.settle

end Connection

end LightPeer
