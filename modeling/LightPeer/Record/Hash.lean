import LightPeer.Digest.Hash256
import LightPeer.Wire.CompactSize

/-!
# Hashes and words as records

A hash is written as its 32 bytes and a word as four bytes in the order in force.
-/

namespace LightPeer.Wire

/-- Reads a hash. -/
def hashDecoder : Decoder Hash256 := do
  let bs ← Decoder.exactly 32
  return ⟨bs.val, bs.property⟩

/-- The one field of a hash. -/
def hashPieces (h : Hash256) : List Bytes := [h.bytes]

/-- A signed word of 32 bits in two's complement. -/
def int32Bytes (order : ByteOrder) (n : Int32) : Bytes := Bytes.ofNat order 4 n.toUInt32.toNat

/-- A signed word of 64 bits in two's complement. -/
def int64Bytes (order : ByteOrder) (n : Int64) : Bytes := Bytes.ofNat order 8 n.toUInt64.toNat

end LightPeer.Wire
