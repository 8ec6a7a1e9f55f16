import LightPeer.Record.NetAddress
import LightPeer.Wire.CompactSize
import LightPeer.Record.Hash

/-!
# Messages of the handshake and the keep-alive

Two peers introduce themselves by a `version` message each and confirm the other
one's.  Which fields stand at the end of it depends on the version number: peers
before the confirmation was introduced give no height, and the wish to be told of
transactions is a late addition that may be missing.
-/

namespace LightPeer

open Wire

/-- The protocol version spoken here. -/
def protocolVersion : Int32 := 70015

/-- The first version whose peers expect a confirmation. -/
def confirmedSince : Int32 := 209

/-- Versions above this one carry the wish to be told of transactions. -/
def relayAfter : Int32 := 70001

/-- How a peer introduces itself. -/
structure Version where
  version : Int32
  services : Services
  timestamp : Int64
  receiver : NetAddress
  sender : NetAddress
  nonce : UInt64
  userAgent : String
  startHeight : Int32
  /-- Whether transactions are to be announced without being asked for. -/
  relay : Bool
  deriving DecidableEq, Inhabited

namespace Version

/-- The fields of an introduction. -/
def pieces (v : Version) : List Bytes :=
  [int32Bytes .little v.version, Bytes.ofNat .little 8 v.services.bits.toNat,
   int64Bytes .little v.timestamp] ++ v.receiver.pieces ++ v.sender.pieces ++
  [Bytes.ofNat .little 8 v.nonce.toNat] ++ varBytesPieces (Utf8.encode v.userAgent) ++
  [int32Bytes .little v.startHeight] ++
  if relayAfter < v.version then [[if v.relay then 1 else 0]] else []

/-- Reads an introduction.  A missing height is -1, and a missing wish is yes. -/
def decoder : Decoder Version :=
  Decoder.withOrder .little do
    let version ← Decoder.int32
    let services ← Decoder.uint64
    let timestamp ← Decoder.int64
    let receiver ← NetAddress.decoder
    let sender ← NetAddress.decoder
    let nonce ← Decoder.uint64
    let userAgent ← Decoder.varString
    let startHeight ← if confirmedSince ≤ version then Decoder.int32 else pure (-1)
    let done ← Decoder.atEnd
    let relay ← if relayAfter < version && ! done then Decoder.bool else pure true
    return ⟨version, ⟨services⟩, timestamp, receiver, sender, nonce, userAgent, startHeight, relay⟩

end Version

/-- A question whether the other side is alive; old peers give it no number. -/
structure Ping where
  nonce : Option UInt64
  deriving DecidableEq, Inhabited

namespace Ping

/-- The fields of a question. -/
def pieces (p : Ping) : List Bytes :=
  match p.nonce with
  | some nonce => [Bytes.ofNat .little 8 nonce.toNat]
  | none => []

/-- Reads a question. -/
def decoder : Decoder Ping := do
  let done ← Decoder.atEnd
  if done then return ⟨none⟩
  else
    let nonce ← Decoder.withOrder .little Decoder.uint64
    return ⟨some nonce⟩

end Ping

/-- The answer to a question, with its number. -/
structure Pong where
  nonce : UInt64
  deriving DecidableEq, Inhabited

/-- The fields of an answer. -/
def Pong.pieces (p : Pong) : List Bytes := [Bytes.ofNat .little 8 p.nonce.toNat]

end LightPeer
