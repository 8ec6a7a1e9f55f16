import LightPeer.Record.Calendar
import LightPeer.Record.Hash

/-!
# Block headers

The 80 bytes that a block is named by: their hash is the name of the block.
-/

namespace LightPeer

open Wire

/-- The header of a block, with the hash of the bytes it was read from. -/
structure BlockHeader where
  version : Int32
  previous : Hash256
  merkleRoot : Hash256
  timestamp : UInt32
  bits : UInt32
  nonce : UInt32
  hash : Hash256
  deriving DecidableEq, Inhabited

namespace BlockHeader

/-- Reads a header. -/
def decoder : Decoder BlockHeader := do
  let (header, consumed) ← Decoder.withConsumed <| Decoder.withOrder .little do
    let version ← Decoder.int32
    let previous ← hashDecoder
    let merkleRoot ← hashDecoder
    let timestamp ← Decoder.uint32
    let bits ← Decoder.uint32
    let nonce ← Decoder.uint32
    return (BlockHeader.mk version previous merkleRoot timestamp bits nonce Hash256.zero)
  return { header with hash := Hash256.digest consumed }

/-- The fields of a header, in order. -/
def pieces (h : BlockHeader) : List Bytes :=
  [int32Bytes .little h.version, h.previous.bytes, h.merkleRoot.bytes,
   Bytes.ofNat .little 4 h.timestamp.toNat, Bytes.ofNat .little 4 h.bits.toNat,
   Bytes.ofNat .little 4 h.nonce.toNat]

/-- The time at which the block was made, as its maker says. -/
def time (h : BlockHeader) : String := Calendar.text h.timestamp.toNat

/-- The compact target as eight hexadecimal digits. -/
def bitsText (h : BlockHeader) : String :=
  "0x" ++ Hex.encode (Bytes.ofNat .big 4 h.bits.toNat)

/-- All fields, for diagnosis. -/
def debugText (h : BlockHeader) : String :=
  "BlockHeader \x7b hash: " ++ h.hash.debugText ++ s!", version: {h.version}, prev_block: " ++
    h.previous.debugText ++ ", merkle_root: " ++ h.merkleRoot.debugText ++
    s!", timestamp: {h.timestamp}, bits: " ++ h.bitsText ++ s!", nonce: {h.nonce} \x7d"

end BlockHeader

end LightPeer
