import LightPeer.Message.Block
import LightPeer.Message.FilterLoad
import LightPeer.Message.Handshake
import LightPeer.Record.Inventory

/-!
# Messages

A payload is read by the name of its command.  A command that has no reader is
no error: its payload is not looked at.
-/

namespace LightPeer

open Wire

/-- A message that a peer sends. -/
inductive Message
  | version (v : Version)
  | verack
  | ping (p : Ping)
  | inv (entries : List Inventory)
  | tx (t : Tx)
  | block (b : Block)
  | merkleBlock (b : MerkleBlock)
  deriving DecidableEq, Inhabited

namespace Message

/-- The name of the command of a message. -/
def command : Message → String
  | .version _ => "version"
  | .verack => "verack"
  | .ping _ => "ping"
  | .inv _ => "inv"
  | .tx _ => "tx"
  | .block _ => "block"
  | .merkleBlock _ => "merkleblock"

/-- Reads a list of inventory entries. -/
def inventoryDecoder : Decoder (List Inventory) := Decoder.vector Inventory.decoder

/-- The reader of a command. -/
def decoder? (command : String) : Option (Decoder Message) :=
  if command = "version" then some do return .version (← Version.decoder)
  else if command = "verack" then some (pure .verack)
  else if command = "ping" then some do return .ping (← Ping.decoder)
  else if command = "inv" then some do return .inv (← inventoryDecoder)
  else if command = "tx" then some do return .tx (← Tx.decoder)
  else if command = "block" then some do return .block (← Block.decoder)
  else if command = "merkleblock" then some do return .merkleBlock (← MerkleBlock.decoder)
  else none

/-- Whether a command has a reader. -/
def isKnown (command : String) : Bool := (decoder? command).isSome

/-- Reads a payload; bytes after the message do not matter. -/
def decode (command : String) (payload : Bytes) : Except Error (Option Message) :=
  match decoder? command with
  | none => .ok none
  | some d =>
    match d.decode payload with
    | .error e => .error e
    | .ok m => .ok (some m)

end Message

/-- A message sent to a peer. -/
inductive Outgoing
  | version (v : Version)
  | verack
  | ping (p : Ping)
  | pong (p : Pong)
  | getData (entries : List Inventory)
  | filterLoad (m : FilterLoad)
  | tx (t : TxBody)
  deriving DecidableEq, Inhabited

namespace Outgoing

/-- The name of the command of a message. -/
def command : Outgoing → String
  | .version _ => "version"
  | .verack => "verack"
  | .ping _ => "ping"
  | .pong _ => "pong"
  | .getData _ => "getdata"
  | .filterLoad _ => "filterload"
  | .tx _ => "tx"

/-- The fields of a message. -/
def pieces : Outgoing → List Bytes
  | .version v => v.pieces
  | .verack => []
  | .ping p => p.pieces
  | .pong p => p.pieces
  | .getData entries => vectorPieces Inventory.pieces entries
  | .filterLoad m => m.pieces
  | .tx t => t.pieces

/-- The payload of a message. -/
def payload (m : Outgoing) : Bytes := m.pieces.flatten

end Outgoing

end LightPeer
