import LightPeer.Message.Basic
import LightPeer.Wire.Writing

/-!
# How records and messages are put into a store

The parts of a transaction are put there in the byte order in force.  All else that depends on an
order sets it for itself, so a message may be put into a store in either order.
-/

namespace LightPeer

open Wire

def NetAddress.writing (a : NetAddress) : Writing :=
  .inOrder .little <|
    .uint64 a.services.bits ++ .bytes a.ip.bytes ++ .inOrder .big (.uint16 a.port)

def Inventory.writing (i : Inventory) : Writing :=
  .inOrder .little <| .uint32 i.kind.toNumber ++ .bytes i.hash.bytes

def OutPoint.writing (o : OutPoint) : Writing := .bytes o.hash.bytes ++ .uint32 o.index

def TxIn.writing (i : TxIn) : Writing :=
  i.previous.writing ++ .varBytes i.script ++ .uint32 i.sequence

def TxOut.writing (o : TxOut) : Writing := .int64 o.value ++ .varBytes o.script

def TxBody.writing (t : TxBody) : Writing :=
  .inOrder .little <|
    .int32 t.version ++ .vector TxIn.writing t.inputs ++ .vector TxOut.writing t.outputs ++
      .uint32 t.lockTime

/-- The wish to be told of transactions is put there last, if the version carries it. -/
def Version.writing (v : Version) : Writing :=
  .inOrder .little <|
    .int32 v.version ++ .uint64 v.services.bits ++ .int64 v.timestamp ++ v.receiver.writing ++
      v.sender.writing ++ .uint64 v.nonce ++ .varString v.userAgent ++ .int32 v.startHeight ++
      if relayAfter < v.version then .bool v.relay else .nothing

def Ping.writing (p : Ping) : Writing :=
  match p.nonce with
  | some nonce => .inOrder .little (.uint64 nonce)
  | none => .nothing

def Pong.writing (p : Pong) : Writing := .inOrder .little (.uint64 p.nonce)

def FilterLoad.writing (m : FilterLoad) : Writing :=
  .inOrder .little <|
    .varBytes m.filter ++ (.uint32 m.functions ++ .uint32 m.tweak ++ .uint8 m.update.toByte)

/-- A list of entries has no order of its own, as its entries have one and so has their number. -/
def Outgoing.writing : Outgoing → Writing
  | .version v => v.writing
  | .verack => .nothing
  | .ping p => p.writing
  | .pong p => p.writing
  | .getData entries => .vector Inventory.writing entries
  | .filterLoad m => m.writing
  | .tx t => t.writing

end LightPeer
