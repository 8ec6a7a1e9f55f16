import LightPeer.Message.Block
import LightPeer.Proofs.Merkle.Completeness
import LightPeer.Proofs.Record.Fixed

/-!
# Filtered blocks from an honest peer

A peer that serves a filtered block sends the header, the number of transactions, and the
proof of those that match.  What is received is that header and that proof, whatever the
80 bytes of the header are, and the matching transactions are found in it.

* `MerkleBlock.parses_pieces` — what is sent is what is read;
* `ofMerkleBlock_of_no_twins`, `ofMerkleBlock_of_twins` — where the proof leads;
* `decode_proofPayload` — the filtered block of an honest peer is accepted.
-/

namespace LightPeer

open Wire Wire.Decoder

namespace MerkleBlock

/-- What is sent is what is read. -/
theorem parses_pieces (order : ByteOrder) (b : MerkleBlock) (hhashes : b.hashes.length < 2 ^ 64)
    (hflags : b.flags.length < 2 ^ 64) :
    Parses order decoder b.pieces.flatten
      { b with header := { b.header with hash := Hash256.digest b.header.pieces.flatten } } := by
  have hparts : b.pieces.flatten = b.header.pieces.flatten ++
      (Bytes.ofNat .little 4 b.total.toNat ++ ((vectorPieces hashPieces b.hashes).flatten ++
        (varBytesPieces b.flags).flatten)) := by
    simp only [pieces, List.flatten_append, List.flatten_singleton, List.append_assoc]
  have hlist : Parses .little (vector hashDecoder) (vectorPieces hashPieces b.hashes).flatten
      b.hashes := by
    refine parses_vector .little ?_ ?_ hhashes
    · intro h _
      rw [hashPieces, List.flatten_singleton]
      exact parses_hash .little h
    · intro h _
      rw [hashPieces, List.flatten_singleton, h.length_bytes]
      decide
  have hbytes := (parses_varBytes .little hflags).map
    (MerkleBlock.mk { b.header with hash := Hash256.digest b.header.pieces.flatten } b.total
      b.hashes)
  rw [hparts]
  exact (BlockHeader.parses_pieces order b.header).bind <| Parses.withOrder <|
    (parses_uint32 .little b.total).bind <| hlist.bind hbytes

end MerkleBlock

/-- The payload of a filtered block: 80 bytes of header, the number of transactions, and the
proof of those that are marked. -/
def proofPayload (header : Bytes) (leaves : List (Hash256 × Bool)) : Bytes :=
  header ++ Bytes.ofNat .little 4 leaves.length ++
    (vectorPieces hashPieces (Merkle.markedTree leaves).hashes).flatten ++
    (varBytesPieces (Merkle.packFlags (Merkle.markedTree leaves).flags)).flatten

section
variable {header : Bytes} {leaves : List (Hash256 × Bool)} (hsome : leaves ≠ [])
  (hcount : leaves.length < 2 ^ 32)

/-- What an honest peer sends under a header. -/
def proofBlock (header : BlockHeader) (leaves : List (Hash256 × Bool)) : MerkleBlock where
  header
  total := UInt32.ofNat leaves.length
  hashes := (Merkle.markedTree leaves).hashes
  flags := Merkle.packFlags (Merkle.markedTree leaves).flags

include hsome hcount

/-- What an honest peer sends is read as the block that it was made for, with the name that its
header has. -/
theorem parses_proofPayload {h : BlockHeader} (hpieces : h.pieces.flatten = header) :
    Parses .little MerkleBlock.decoder (proofPayload header leaves)
      (proofBlock { h with hash := Hash256.digest header } leaves) := by
  subst hpieces
  have htotal : (UInt32.ofNat leaves.length).toNat = leaves.length :=
    UInt32.toNat_ofNat_of_lt' hcount
  have hhashes : (Merkle.markedTree leaves).hashes.length < 2 ^ 64 := by
    have hle := (Merkle.markedTree leaves).length_hashes_le
    rw [Merkle.leaves_markedTree hsome hcount] at hle
    omega
  have hflags : (Merkle.packFlags (Merkle.markedTree leaves).flags).length < 2 ^ 64 := by
    have hpacked := Merkle.length_packFlags_le (Merkle.markedTree leaves).flags
    have hlt := Merkle.Tree.length_flags_lt (Merkle.height (UInt32.ofNat leaves.length)) leaves
    have hheight := Merkle.height_le (UInt32.ofNat leaves.length)
    have hpow : 2 ^ (Merkle.height (UInt32.ofNat leaves.length) + 1) ≤ 2 ^ 33 :=
      Nat.pow_le_pow_right (by decide) (by omega)
    rw [← Merkle.markedTree] at hlt
    omega
  have hparses := MerkleBlock.parses_pieces .little (proofBlock h leaves) hhashes hflags
  have hpayload :
      (proofBlock h leaves).pieces.flatten = proofPayload h.pieces.flatten leaves := by
    simp only [MerkleBlock.pieces, proofBlock, proofPayload, List.flatten_append,
      List.flatten_singleton, htotal]
  rw [hpayload] at hparses
  exact hparses

/-- A proof that goes through no twins leads to the root in the header. -/
theorem ofMerkleBlock_of_no_twins {h : BlockHeader}
    (hroot : Merkle.rootOf? (leaves.map Prod.fst) = some h.merkleRoot)
    (htwins : (Merkle.markedTree leaves).hasTwins = false) :
    FilteredBlock.ofMerkleBlock (proofBlock h leaves) =
      .ok ⟨h, UInt32.ofNat leaves.length, (Merkle.markedTree leaves).marked⟩ := by
  rw [Merkle.rootOf?_eq_markedTree hsome hcount, Option.some.injEq] at hroot
  have hproof := Merkle.ofFlagBytes_of_no_twins hsome hcount htwins
  rw [FilteredBlock.ofMerkleBlock, MerkleBlock.verify, proofBlock]
  simp only [hproof, Merkle.PartialTree.verifyRoot, hroot, if_true]

/-- A proof that goes through twins does not come as far as the root. -/
theorem ofMerkleBlock_of_twins (h : BlockHeader)
    (htwins : (Merkle.markedTree leaves).hasTwins = true) :
    ∃ node, FilteredBlock.ofMerkleBlock (proofBlock h leaves) =
      .error (.duplicateSiblings node) := by
  obtain ⟨node, hproof⟩ := Merkle.ofFlagBytes_of_twins hsome hcount htwins
  refine ⟨node, ?_⟩
  rw [FilteredBlock.ofMerkleBlock, MerkleBlock.verify, proofBlock]
  simp only [hproof]

end

/-- **The filtered block of an honest peer is accepted.**  Its payload is read, and the marked
transactions are found in the order of the block, unless the proof goes through a node whose
two children have one hash; then it is refused for that. -/
theorem decode_proofPayload {header : Bytes} {leaves : List (Hash256 × Bool)} {root : Hash256}
    (hheader : header.length = 80) (hcount : leaves.length < 2 ^ 32)
    (hroot : Merkle.rootOf? (leaves.map Prod.fst) = some root)
    (hfield : (header.drop 36).take 32 = root.bytes) :
    ∃ block : MerkleBlock, MerkleBlock.decoder.decode (proofPayload header leaves) = .ok block ∧
      block.header.pieces.flatten = header ∧ block.hash = Hash256.digest header ∧
      ((Merkle.markedTree leaves).hasTwins = false →
        FilteredBlock.ofMerkleBlock block = .ok ⟨block.header, UInt32.ofNat leaves.length,
          leaves.filterMap fun leaf => if leaf.2 then some leaf.1 else none⟩) ∧
      ((Merkle.markedTree leaves).hasTwins = true →
        ∃ node, FilteredBlock.ofMerkleBlock block = .error (.duplicateSiblings node)) := by
  have hsome : leaves ≠ [] := by
    rintro rfl
    rw [List.map_nil, Merkle.rootOf?] at hroot
    cases hroot
  obtain ⟨h, hpieces, hbytes⟩ := BlockHeader.exists_pieces hheader
  have hmerkle : h.merkleRoot = root := by
    obtain ⟨_, _, ⟨bytes, _⟩, _, _, _, _⟩ := h
    obtain ⟨bytes', _⟩ := root
    cases hbytes.trans hfield
    rfl
  have hmarked : (Merkle.markedTree leaves).marked =
      leaves.filterMap fun leaf => if leaf.2 then some leaf.1 else none := by
    rw [Merkle.Tree.marked, Merkle.leaves_markedTree hsome hcount]
  refine ⟨proofBlock { h with hash := Hash256.digest header } leaves,
    (parses_proofPayload hsome hcount hpieces).decode_eq, hpieces, rfl, ?_,
    ofMerkleBlock_of_twins hsome hcount _⟩
  intro htwins
  rw [← hmerkle] at hroot
  rw [← hmarked]
  exact ofMerkleBlock_of_no_twins hsome hcount hroot htwins

/-- A header with a root, and zeros in all other fields. -/
def headerOver (root : Hash256) : Bytes :=
  Bytes.replicate 36 0 ++ (root.bytes ++ Bytes.replicate 12 0)

/-- The first of two transactions. -/
theorem decode_proofPayload_two :
    ∃ block : MerkleBlock,
      MerkleBlock.decoder.decode (proofPayload (headerOver (Hash256.pair .zero Merkle.ones))
        [(.zero, true), (Merkle.ones, false)]) = .ok block ∧
      FilteredBlock.ofMerkleBlock block = .ok ⟨block.header, 2, [.zero]⟩ := by
  have hheader : (headerOver (Hash256.pair .zero Merkle.ones)).length = 80 := by
    simp [headerOver, Hash256.length_bytes]
  have hroot : Merkle.rootOf? ([(Hash256.zero, true), (Merkle.ones, false)].map Prod.fst) =
      some (Hash256.pair .zero Merkle.ones) := by
    rw [List.map_cons, List.map_cons, List.map_nil, Merkle.rootOf?, Merkle.levelAbove,
      Merkle.levelAbove, Merkle.rootOf?]
  have hfield : ((headerOver (Hash256.pair .zero Merkle.ones)).drop 36).take 32 =
      (Hash256.pair .zero Merkle.ones).bytes := by
    rw [headerOver, List.drop_left' (Bytes.length_replicate 36 0),
      List.take_left' (Hash256.length_bytes _)]
  obtain ⟨block, hdecode, _, _, haccepted, _⟩ :=
    @decode_proofPayload _ [(.zero, true), (Merkle.ones, false)] _ hheader (by decide) hroot hfield
  exact ⟨block, hdecode, haccepted (by decide)⟩

end LightPeer
