import LightPeer.Session.Dice
import LightPeer.Session.Intake
import LightPeer.Session.Link
import LightPeer.Session.Reaction

/-!
# Connections

A connection has one session after another, at most one at a time.  Its state is
the session, what is watched, the listeners, the link to the peer with the bytes
that have not yet been written to it, and what the side that reads from the link
is doing.  All that happens is written into a journal, oldest entry first.

This module has the state and what listeners can do with it; `emit` tells an event
to the listeners that are registered when it happens.
-/

namespace LightPeer

/-- An address that is watched, with the hash that filters match on. -/
structure Watched where
  address : String
  hash : Hash160
  deriving DecidableEq

/-- What reading from the link has come to. -/
inductive Task
  /-- There is nothing to read from, or nobody asks for the reader any more. -/
  | none
  /-- Waiting for bytes; those of an unfinished frame are held. -/
  | reading (intake : Intake)
  /-- Waiting until a reply is written.  The reply is in `unsent` until it stands behind the
  bytes to be written; `loading` tells that it hands over a filter; `backlog` comes after it. -/
  | replying (unsent : Option Outgoing) (backlog : Backlog) (loading : Bool)
  /-- The session is over, but closing the link has not come to an end.  Nobody is called when it
  could:  only the owner, who ends the session, brings this to its end. -/
  | closing
  /-- The session has ended by itself. -/
  | finished

/-- What the owner of a connection and the side that reads tell each other about the end of a
session. -/
structure Signals where
  /-- The owner wants the session to end. -/
  stopping : Bool := false
  /-- Somebody has seen to it that the listeners are told of the end. -/
  parted : Bool := false
  /-- The reader can be called away from its link. -/
  bell : Bool := false
  deriving DecidableEq

/-- A session begins: nobody wants it to end, and it has not ended.  The bell is not touched before
there is a reader. -/
def Signals.renew (s : Signals) : Signals := { s with stopping := false, parted := false }

/-- A connection. -/
structure Connection where
  config : Config
  watched : List Watched
  policy : FilterPolicy
  session : Session
  listeners : Listeners
  supply : IdSupply
  link : Link
  /-- Bytes that are to be written, while there is someone to write them to. -/
  writer : Option Bytes
  task : Task
  signals : Signals
  dice : Dice
  journal : List Entry

namespace Connection

/-- A connection without a session. -/
def new (config : Config) (supply : IdSupply) (dice : Dice) : Connection where
  config
  watched := []
  policy := config.filter
  session := {}
  listeners := .empty
  supply
  link := {}
  writer := none
  task := .none
  signals := {}
  dice
  journal := []

/-- Writes an entry into the journal. -/
def record (c : Connection) (entry : Entry) : Connection :=
  { c with journal := c.journal ++ [entry] }

/-- Reports trouble. -/
def notice (c : Connection) (n : Notice) : Connection := c.record (.noticed n)

/-- Moves the session to a stage. -/
def enter (c : Connection) (stage : Stage) : Connection :=
  { c with session := { c.session with stage } }.record (.entered stage)

/-- The addresses with their hashes, if all of them have one. -/
def watchedOf : List String → Except SessionError (List Watched)
  | [] => .ok []
  | address :: addresses =>
    match Address.hash address with
    | .error cause => .error (.address cause)
    | .ok hash =>
      match watchedOf addresses with
      | .error e => .error e
      | .ok rest => .ok (⟨address, hash⟩ :: rest)

/-- Replaces the addresses that are watched; if one of them is wrong, all stays as it is. -/
def watch (c : Connection) (addresses : List String) : Connection × Except SessionError Unit :=
  match watchedOf addresses with
  | .error e => (c, .error e)
  | .ok watched => ({ c with watched }.record (.watching addresses), .ok ())

/-- The addresses that are watched. -/
def filterList (c : Connection) : List String := c.watched.map Watched.address

/-- Whether anything is watched. -/
def hasFilter (c : Connection) : Bool := ! c.watched.isEmpty

/-- Replaces the way filters are built. -/
def setPolicy (c : Connection) (policy : FilterPolicy) : Connection :=
  { c with policy }.record (.tuning policy)

/-- Registers a listener. -/
def listen (c : Connection) (kind : ListenerKind) (listener : Listener kind) :
    ListenerId × Connection :=
  let (id, supply) := c.supply.take
  (id, { c with supply, listeners := c.listeners.add id kind listener })

/-- Removes a listener of any kind, and says whether it was registered. -/
def removeListener (c : Connection) (id : ListenerId) : Bool × Connection :=
  (c.listeners.contains id, { c with listeners := c.listeners.remove id })

end Connection

/-- Carries out a reaction. -/
def Reaction.run : Reaction → Connection → Connection × Outcome
  | .finish outcome, c => (c, outcome)
  | .say line next, c => next.run (c.record (.said line))
  | .look next, c => (next c.session).run c
  | .recall next, c => (next c.journal).run c
  | .watch addresses next, c =>
    let (c, result) := c.watch addresses
    (next result).run c
  | .tune policy next, c => next.run (c.setPolicy policy)
  | .listen kind listener next, c =>
    let (id, c) := c.listen kind listener
    (next id).run c
  | .remove id next, c =>
    let (removed, c) := c.removeListener id
    (next removed).run c

namespace Connection

/-- Tells one listener an event and reports how that ended. -/
def call (kind : ListenerKind) (event : kind.Event) (c : Connection)
    (entry : ListenerId × Listener kind) : Connection :=
  let started := c.record (.called entry.1 c.session.stage (.ofKind kind event))
  let (c, outcome) := (entry.2 event).run started
  match Complaint.ofOutcome? kind.name entry.1 outcome with
  | none => c
  | some complaint => c.notice (.listener complaint)

/-- Tells an event to all listeners of its kind that are registered now. -/
def emit (kind : ListenerKind) (event : kind.Event) (c : Connection) : Connection :=
  (c.listeners.ofKind kind).entries.foldl (call kind event)
    (c.record (.emitted (.ofKind kind event)))

end Connection

end LightPeer
