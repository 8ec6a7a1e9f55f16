import LightPeer.Command.Options
import LightPeer.Session.Lifecycle

/-!
# The command that listens

The command prints a line for every turn of its session and for every transaction
and block that arrives.  It ends when the session has ended.
-/

namespace LightPeer

namespace Listen

/-- The text of a protocol version that may not be known. -/
def versionText : Option Int32 → String
  | some v => s!"Some({v.toInt})"
  | none => "None"

/-- The line for the end of the handshake. -/
def handshakeLine (s : Session) : String :=
  "🤝 Handshake complete (version " ++ versionText s.version ++ ", services 0x" ++
    Text.hexDigits s.services.bits.toNat ++ ")"

/-- Says a line for every turn of a session. -/
def onSession : SessionEvent → Reaction
  | .connected => .look fun s => .say ("🔌 Connected to " ++ Notice.peerText s.peer) .done
  | .verack => .look fun s => .say (handshakeLine s) .done
  | .disconnected => .say "📴 Disconnected" .done

/-- The line for a transaction. -/
def transactionLine (tx : Tx) (total : Int64) : String :=
  "💸 tx " ++ tx.txid.display ++
    s!" ({tx.inputs.length} in, {tx.outputs.length} out, {total.toInt} sat)"

/-- Says a line for every transaction whose outputs have a sum. -/
def onTransaction (tx : Tx) : Reaction :=
  match tx.totalOutput? with
  | some total => .say (transactionLine tx total) .done
  | none => .finish .panicked

/-- The lines for a block. -/
def blockLines : BlockEvent → List String
  | .full b => ["🧱 block " ++ b.hash.display ++ s!" ({b.transactions.length} transactions)"]
  | .filtered b =>
    ("🧱 filtered block " ++ b.hash.display ++
      s!" ({b.matched.length} of {b.total.toNat} transactions matched)") ::
      b.matched.map fun txid => "   └─ " ++ txid.display

/-- Says lines for every block. -/
def onBlock (event : BlockEvent) : Reaction := (blockLines event).foldr Reaction.say .done

/-- A connection with the listeners of the command. -/
def listening (c : Connection) : Connection :=
  let (_, c) := c.listen .connection onSession
  let (_, c) := c.listen .transaction onTransaction
  let (_, c) := c.listen .block onBlock
  c

/-- The connection of the command, and what the peer stands for. -/
def prepare (o : ListenOptions) (supply : IdSupply) (dice : Dice) :
    Except CommandError (Connection × Target) :=
  match o.config with
  | .error e => .error e
  | .ok config =>
    match (Connection.new config supply dice).watch o.addresses with
    | (_, .error cause) => .error (.session cause)
    | (c, .ok ()) =>
      match Target.ofPeer config.network o.peer with
      | .error e => .error e
      | .ok target => .ok (listening c, target)

/-- The lines that are printed before the session begins. -/
def banner (o : ListenOptions) (network : Network) (peer : Endpoint) : List String :=
  ("🌐 Listening to " ++ peer.text ++ " on " ++ network.name ++ "...") ::
    if o.addresses.isEmpty then [] else [s!"   Watching {o.addresses.length} address(es)"]

/-- The lines that listeners have said, in order. -/
def said (c : Connection) : List String :=
  c.journal.filterMap fun entry =>
    match entry with
    | .said line => some line
    | _ => none

/-- What the peer does: it refuses the link, or sends bytes and ends the stream. -/
inductive PeerScript
  | refuse (text : String)
  | stream (bytes : Bytes)

/-- A whole session with a peer that goes by a script: the connection at its end, and the
failure of the command if there is one. -/
def converse (peer : Endpoint) (now : Int64) (c : Connection) :
    PeerScript → Connection × Option CommandError
  | .refuse text =>
    match c.dialFailed peer text with
    | (c, .failed cause) => (c, some (.session cause))
    | (c, _) => (c, none)
  | .stream bytes =>
    match c.connect peer {} now with
    | (c, .failed cause) => (c, some (.session cause))
    | (c, _) => (((c.deliver bytes (some .closed)).disconnect).1, none)

end Listen

end LightPeer
