import LightPeer.Merkle.Proof
import LightPeer.Record.BlockHeader
import LightPeer.Record.Tx

/-!
# Blocks

A block comes whole, with all of its transactions, or as a header with a proof
that some of its transactions belong to it.  Only a proof that leads to the root
in the header makes a filtered block.
-/

namespace LightPeer

open Wire

/-- A whole block. -/
structure Block where
  header : BlockHeader
  transactions : List Tx
  deriving DecidableEq, Inhabited

namespace Block

/-- The name of a block is the hash of its header. -/
def hash (b : Block) : Hash256 := b.header.hash

/-- Reads a block. -/
def decoder : Decoder Block := do
  let header ← BlockHeader.decoder
  let transactions ← Decoder.vector Tx.decoder
  return ⟨header, transactions⟩

end Block

/-- A header and a proof, not yet followed. -/
structure MerkleBlock where
  header : BlockHeader
  total : UInt32
  hashes : List Hash256
  flags : Bytes
  deriving DecidableEq, Inhabited

namespace MerkleBlock

/-- The name of a block is the hash of its header. -/
def hash (b : MerkleBlock) : Hash256 := b.header.hash

/-- Reads a header and a proof. -/
def decoder : Decoder MerkleBlock := do
  let header ← BlockHeader.decoder
  Decoder.withOrder .little do
    let total ← Decoder.uint32
    let hashes ← Decoder.vector hashDecoder
    let flags ← Decoder.varBytes
    return ⟨header, total, hashes, flags⟩

/-- The fields of a header and a proof. -/
def pieces (b : MerkleBlock) : List Bytes :=
  b.header.pieces ++ [Bytes.ofNat .little 4 b.total.toNat] ++ vectorPieces hashPieces b.hashes ++
    varBytesPieces b.flags

/-- Follows the proof and compares its root with the header's. -/
def verify (b : MerkleBlock) : Except Merkle.Error Merkle.PartialTree :=
  match Merkle.ofFlagBytes b.hashes b.total b.flags with
  | .error e => .error e
  | .ok tree =>
    match tree.verifyRoot b.header.merkleRoot with
    | .error e => .error e
    | .ok () => .ok tree

end MerkleBlock

/-- A header with the transactions that are proved to belong to its block. -/
structure FilteredBlock where
  header : BlockHeader
  total : UInt32
  /-- The names of the transactions, in the order of the block. -/
  matched : List Hash256
  deriving DecidableEq, Inhabited

namespace FilteredBlock

/-- The name of a block is the hash of its header. -/
def hash (b : FilteredBlock) : Hash256 := b.header.hash

/-- The filtered block of a proof that holds. -/
def ofMerkleBlock (b : MerkleBlock) : Except Merkle.Error FilteredBlock :=
  match b.verify with
  | .error e => .error e
  | .ok tree => .ok ⟨b.header, b.total, tree.matched⟩

end FilteredBlock

end LightPeer
