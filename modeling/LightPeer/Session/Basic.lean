import LightPeer.Address.Basic
import LightPeer.Frame.Basic
import LightPeer.Net.Endpoint

/-!
# Sessions

A session is one conversation with a peer, from the wish to have one to its end.
It goes through stages, and what the peer says of itself is kept until the next
session begins.
-/

namespace LightPeer

/-- How far a session has come. -/
inductive Stage
  | disconnected
  | connecting
  | awaitingVerack
  | ready
  deriving DecidableEq, Repr, Inhabited

/-- What is known of the session in progress, or of the last one. -/
structure Session where
  stage : Stage := .disconnected
  peer : Option Endpoint := none
  services : Services := .none
  userAgent : Option String := none
  /-- The lesser of both sides' protocol versions, once the peer has told its own. -/
  version : Option Int32 := none
  /-- Whether the peer has been given a filter. -/
  filterLoaded : Bool := false
  deriving DecidableEq, Inhabited

/-- Whether a session is in progress. -/
def Session.isConnected (s : Session) : Bool := s.stage ≠ .disconnected

/-- Why something could not be done with a connection. -/
inductive SessionError
  | alreadyConnected
  | notConnected
  | filterNotSupported
  | io (text : String)
  | framing (cause : Frame.Error)
  | address (cause : Address.Error)
  | invalidMerkleBlock (block : Hash256) (cause : Merkle.Error)
  deriving DecidableEq

/-- The text of a refusal or failure. -/
def SessionError.message : SessionError → String
  | .alreadyConnected => "Already connected"
  | .notConnected => "Not connected"
  | .filterNotSupported => "Peer does not support bloom filters"
  | .io text => "IO error: " ++ text
  | .framing cause => "Framing error: " ++ cause.message
  | .address cause => "Invalid filter address: " ++ cause.message
  | .invalidMerkleBlock block cause =>
    "Invalid merkleblock " ++ block.display ++ ": " ++ cause.message

/-- A turn in the life of a session. -/
inductive SessionEvent
  | connected
  | verack
  | disconnected
  deriving DecidableEq, Repr, Inhabited

/-- A block that arrived, whole or as the part that the filter let through. -/
inductive BlockEvent
  | full (block : Block)
  | filtered (block : FilteredBlock)
  deriving DecidableEq

/-- The name of a block. -/
def BlockEvent.hash : BlockEvent → Hash256
  | .full block => block.hash
  | .filtered block => block.hash

/-- What a listener can listen to. -/
inductive ListenerKind
  | connection
  | transaction
  | block
  deriving DecidableEq, Repr

namespace ListenerKind

/-- The name of a kind. -/
def name : ListenerKind → String
  | .connection => "connection"
  | .transaction => "transaction"
  | .block => "block"

/-- What listeners of a kind are told. -/
def Event : ListenerKind → Type
  | .connection => SessionEvent
  | .transaction => Tx
  | .block => BlockEvent

end ListenerKind

/-- Something that listeners of one kind are told. -/
inductive Event
  | connection (event : SessionEvent)
  | transaction (tx : Tx)
  | block (event : BlockEvent)
  deriving DecidableEq

/-- An event of one kind, as an event. -/
def Event.ofKind : (kind : ListenerKind) → kind.Event → Event
  | .connection, event => .connection event
  | .transaction, tx => .transaction tx
  | .block, event => .block event

end LightPeer
