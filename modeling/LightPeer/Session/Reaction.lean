import LightPeer.Session.Journal

/-!
# What listeners do

A listener of a connection answers an event by a reaction: it can look at the
session and recall all that has happened, change what is watched and how filters
are built, register and remove listeners and say a line of text, before it ends
well, fails or panics.  It cannot send.
-/

namespace LightPeer

/-- What a listener does when it is told an event, one act after another. -/
inductive Reaction : Type
  | finish (outcome : Outcome)
  | say (line : String) (next : Reaction)
  | look (next : Session → Reaction)
  | recall (next : List Entry → Reaction)
  | watch (addresses : List String) (next : Except SessionError Unit → Reaction)
  | tune (policy : FilterPolicy) (next : Reaction)
  | listen (kind : ListenerKind) (listener : kind.Event → Reaction) (next : ListenerId → Reaction)
  | remove (id : ListenerId) (next : Bool → Reaction)

/-- A listener ends well. -/
def Reaction.done : Reaction := .finish .ok

/-- A listener of a kind. -/
abbrev Listener (kind : ListenerKind) : Type := kind.Event → Reaction

/-- The listeners of a connection, by kind. -/
structure Listeners where
  connection : Registry (Listener .connection)
  transaction : Registry (Listener .transaction)
  block : Registry (Listener .block)

namespace Listeners

/-- No listeners. -/
def empty : Listeners := ⟨.empty, .empty, .empty⟩

/-- The listeners of one kind. -/
def ofKind (l : Listeners) : (kind : ListenerKind) → Registry (Listener kind)
  | .connection => l.connection
  | .transaction => l.transaction
  | .block => l.block

/-- One more listener of a kind, behind the others of that kind. -/
def add (l : Listeners) (id : ListenerId) : (kind : ListenerKind) → Listener kind → Listeners
  | .connection, listener => { l with connection := l.connection.add id listener }
  | .transaction, listener => { l with transaction := l.transaction.add id listener }
  | .block, listener => { l with block := l.block.add id listener }

/-- Whether a handle is in use for a listener of any kind. -/
def contains (l : Listeners) (id : ListenerId) : Bool :=
  l.connection.contains id || l.transaction.contains id || l.block.contains id

/-- The listeners without the one of a handle, which the first kind that knows it gives up. -/
def remove (l : Listeners) (id : ListenerId) : Listeners :=
  if l.connection.contains id then { l with connection := l.connection.remove id }
  else if l.transaction.contains id then { l with transaction := l.transaction.remove id }
  else { l with block := l.block.remove id }

end Listeners

end LightPeer
