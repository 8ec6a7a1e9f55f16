import LightPeer.Message.Basic
import LightPeer.Proofs.Record.Spelling
import LightPeer.Proofs.Wire.Extent

/-!
# Records mark their own end

Every record but an introduction and a question is delimited: it takes a byte at least, and its
bytes settle what it is and where it ends.  An introduction and a question end differently if
nothing follows them, so they are not among these.

For a record of fields this is what is known of its spellings, that it is read from each of them
and from nothing else.  What is put together of such records is delimited as they are.

* `records_self_delimiting` — a record is read from its own bytes and from no fewer;
* `counts_refuse_early` — so a count that exceeds the bytes behind it never stood in front of items
  that could have been read.
-/

namespace LightPeer

open Wire Wire.Decoder

/-- An address is read from its own bytes.  So is each of the records below, wherever it stands, and
none of them is without bytes. -/
theorem NetAddress.delimited (order : ByteOrder) : Delimited order decoder := by
  apply (reads_pieces order).mono
  rintro _ a rfl
  refine ⟨?_, a.parses_pieces order⟩
  rw [flatten_pieces]
  exact List.append_ne_nil_of_left_ne_nil (List.cons_ne_nil _ _) _

/-- An entry takes what its encoding has, and leaves what is behind it. -/
theorem Inventory.delimited (order : ByteOrder) : Delimited order decoder :=
  ((delimited_uint32 .little).bind fun number =>
    ((delimited_hash .little).map (Inventory.mk (.ofNumber number))).isLocal).withOrder

/-- So does an input, whose script has its length in front. -/
theorem TxIn.delimited (order : ByteOrder) : Delimited order decoder := by
  apply (reads_spelled order).mono
  rintro _ i ⟨count, hcount, rfl⟩
  exact ⟨i.spelled_ne_nil order count, parses_spelled hcount⟩

/-- So does an output, in the same way. -/
theorem TxOut.delimited (order : ByteOrder) : Delimited order decoder := by
  apply (reads_spelled order).mono
  rintro _ o ⟨count, hcount, rfl⟩
  exact ⟨o.spelled_ne_nil order count, parses_spelled hcount⟩

/-- The inputs and the outputs of a transaction are lists with counts in front, each entry of which
delimits itself. -/
theorem TxBody.delimited (order : ByteOrder) : Delimited order decoder := by
  apply (reads_spelled order).mono
  rintro _ t ⟨c, hforms, rfl⟩
  exact ⟨List.append_ne_nil_of_left_ne_nil (List.cons_ne_nil _ _) _, parses_spelled order hforms⟩

/-- A transaction takes its name from the bytes that it is read from, so they settle this too. -/
theorem Tx.delimited (order : ByteOrder) : Delimited order decoder :=
  (TxBody.delimited order).withConsumed.map
    fun read => Tx.mk read.1 (Hash256.digest read.2)

/-- The head of a block has one length. -/
theorem BlockHeader.delimited (order : ByteOrder) : Delimited order decoder := by
  apply (reads_pieces order).mono
  rintro _ h ⟨rfl, hhash⟩
  have hparses := h.parses_pieces order
  rw [← hhash] at hparses
  have hlength := h.length_flatten_pieces
  exact ⟨List.length_pos_iff.mp (by omega), hparses⟩

/-- The transactions of a block are a list with its count in front. -/
theorem Block.delimited (order : ByteOrder) : Delimited order decoder :=
  (BlockHeader.delimited order).bind fun header =>
    ((Tx.delimited order).vector.map (Block.mk header)).isLocal

/-- The hashes and the flags of a proof are lists with their counts in front. -/
theorem MerkleBlock.delimited (order : ByteOrder) : Delimited order decoder :=
  (BlockHeader.delimited order).bind fun header =>
    ((delimited_uint32 .little).bind fun total =>
      ((delimited_hash .little).vector.bind fun hashes =>
        ((delimited_varBytes .little).map
          (MerkleBlock.mk header total hashes)).isLocal).isLocal).withOrder.isLocal

/-- What announces or asks for data is one list of entries. -/
theorem Message.inventory_delimited (order : ByteOrder) : Delimited order inventoryDecoder :=
  (Inventory.delimited order).vector

/-- **Records mark their own end.**  What is read from a store, in either byte order, is read from
every store that has the same bytes at the same place, and from none that is cut short there.  So
bytes behind a record do not change it, and no bytes that a record is read from are the beginning of
others. -/
theorem records_self_delimiting :
    SelfDelimiting NetAddress.decoder ∧ SelfDelimiting Inventory.decoder ∧
      SelfDelimiting Message.inventoryDecoder ∧ SelfDelimiting TxIn.decoder ∧
      SelfDelimiting TxOut.decoder ∧ SelfDelimiting Tx.decoder ∧
      SelfDelimiting BlockHeader.decoder ∧ SelfDelimiting Block.decoder ∧
      SelfDelimiting MerkleBlock.decoder :=
  ⟨Delimited.selfDelimiting NetAddress.delimited, Delimited.selfDelimiting Inventory.delimited,
    Delimited.selfDelimiting Message.inventory_delimited, Delimited.selfDelimiting TxIn.delimited,
    Delimited.selfDelimiting TxOut.delimited, Delimited.selfDelimiting Tx.delimited,
    Delimited.selfDelimiting BlockHeader.delimited, Delimited.selfDelimiting Block.delimited,
    Delimited.selfDelimiting MerkleBlock.delimited⟩

/-- **A count that is refused at once would have been refused in the end.**  A list of words,
hashes, inventory entries, inputs, outputs or transactions is read behind a count that is compared
with the bytes behind it just when it is read without the comparison, and then it is the same list
and ends at the same place.  So it is with a byte string, where the cursor does not tell either
which of the two has failed. -/
theorem counts_refuse_early :
    RefusesEarly (vector uint32) (vectorUnchecked uint32) ∧
      RefusesEarly (vector hashDecoder) (vectorUnchecked hashDecoder) ∧
      RefusesEarly (vector Inventory.decoder) (vectorUnchecked Inventory.decoder) ∧
      RefusesEarly (vector TxIn.decoder) (vectorUnchecked TxIn.decoder) ∧
      RefusesEarly (vector TxOut.decoder) (vectorUnchecked TxOut.decoder) ∧
      RefusesEarly (vector Tx.decoder) (vectorUnchecked Tx.decoder) ∧
      RefusesEarly varBytes varBytesUnchecked ∧
      ∀ c : Cursor, (c.read varBytes).2 = (c.read varBytesUnchecked).2 :=
  ⟨Delimited.vector_refusesEarly delimited_uint32, Delimited.vector_refusesEarly delimited_hash,
    Delimited.vector_refusesEarly Inventory.delimited,
    Delimited.vector_refusesEarly TxIn.delimited, Delimited.vector_refusesEarly TxOut.delimited,
    Delimited.vector_refusesEarly Tx.delimited, varBytes_refusesEarly, read_varBytes_snd⟩

end LightPeer
