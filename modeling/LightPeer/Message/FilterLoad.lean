import LightPeer.Bloom.Filter
import LightPeer.Record.Hash

/-!
# Handing a filter to a peer

The field of bits, the number of hash functions, the tweak, and what the peer is
to add to the filter when an output matches.
-/

namespace LightPeer

open Wire

/-- Which matching outputs a peer adds to the filter. -/
inductive FilterUpdate
  | none
  | all
  | pubKeyOnly
  deriving DecidableEq, Repr, Inhabited

/-- The number of a choice on the wire. -/
def FilterUpdate.toByte : FilterUpdate → UInt8
  | .none => 0
  | .all => 1
  | .pubKeyOnly => 2

/-- A filter as it is sent. -/
structure FilterLoad where
  filter : Bytes
  functions : UInt32
  tweak : UInt32
  update : FilterUpdate
  deriving DecidableEq, Inhabited

namespace FilterLoad

/-- The message that hands over a filter. -/
def ofFilter (f : BloomFilter) (update : FilterUpdate) : FilterLoad :=
  ⟨f.bytes, UInt32.ofNat f.functions, f.tweak, update⟩

/-- The fields of the message. -/
def pieces (m : FilterLoad) : List Bytes :=
  varBytesPieces m.filter ++
    [Bytes.ofNat .little 4 m.functions.toNat, Bytes.ofNat .little 4 m.tweak.toNat,
     [m.update.toByte]]

end FilterLoad

end LightPeer
