import LightPeer.Proofs.Message.Safety
import LightPeer.Proofs.Wire.Beyond

/-!
# Records from behind the end of a store

A record is read from a store wherever its cursor stands, also behind the end.  Every record but
one begins with a field of a byte at least, and so it is missing there before any range is
addressed.  A question whether the other side is alive may have no field, and then it has none.

So of all accesses to a store, only those to an empty range can address one that does not exist.

* `Version.sound`, `Tx.sound`, `Block.sound` and so on — one lemma for each record;
* `empty_ranges_alone` — the accesses to a store, wherever its cursor stands;
* `nothing_taken_behind_end` — an empty range that is missing.
-/

namespace LightPeer

open Wire Wire.Decoder

/-- A hash needs all of its bytes, and is refused where there are fewer. -/
theorem needs_hash : Needs 32 hashDecoder := (needs_exactly 32).bind _

/-- A transaction begins with the four bytes of its version. -/
theorem needs_txBody : Needs 4 TxBody.decoder := (needs_int32.bind _).withOrder .little

/-- So does the head of a block. -/
theorem needs_blockHeader : Needs 4 BlockHeader.decoder :=
  (((needs_int32.bind _).withOrder .little).withConsumed).bind _

/-- An address begins with its services, so behind the end it is too short before anything else is
asked for. -/
theorem NetAddress.sound : NetAddress.decoder.Sound :=
  (((needs_unsigned 8).bind _).bind _ |>.withOrder .little).sound (by decide) NetAddress.steady

/-- An entry begins with its type, which is missing there. -/
theorem Inventory.sound : Inventory.decoder.Sound :=
  (((needs_unsigned 4).bind _).bind _ |>.withOrder .little).sound (by decide) Inventory.steady

/-- What an input spends begins with a hash, which is missing there. -/
theorem OutPoint.sound : OutPoint.decoder.Sound :=
  (needs_hash.bind _).sound (by decide) OutPoint.steady

/-- The head of a block begins with its version. -/
theorem BlockHeader.sound : BlockHeader.decoder.Sound :=
  needs_blockHeader.sound (by decide) BlockHeader.steady

/-- An input begins with what it spends. -/
theorem TxIn.sound : TxIn.decoder.Sound :=
  ((needs_hash.bind _).bind _).sound (by decide) TxIn.steady

/-- An output begins with its amount. -/
theorem TxOut.sound : TxOut.decoder.Sound :=
  (((needs_unsigned 8).bind _).bind _ |>.bind _).sound (by decide) TxOut.steady

/-- The bytes that a transaction was read from are cut out again, but behind the end its version is
missing first. -/
theorem Tx.sound : Tx.decoder.Sound :=
  (needs_txBody.withConsumed.bind _).sound (by decide) Tx.steady

/-- A block begins with its head. -/
theorem Block.sound : Block.decoder.Sound :=
  (needs_blockHeader.bind _).sound (by decide) Block.steady

/-- So does a proof, and its lists begin with their counts. -/
theorem MerkleBlock.sound : MerkleBlock.decoder.Sound :=
  (needs_blockHeader.bind _).sound (by decide) MerkleBlock.steady

/-- An introduction begins with its number, and only its last fields may be left out. -/
theorem Version.sound : Version.decoder.Sound :=
  ((needs_int32.bind _).withOrder .little).sound (by decide) Version.steady

/-- A question without a number takes no range at all, and so it is read from anywhere. -/
theorem Ping.sound : Ping.decoder.Sound := by
  intro c hfault
  by_cases hinside : c.position ≤ c.data.length
  · exact (Ping.steady.careful c hinside).2 hfault
  · -- Nothing is left behind the end, and so no nonce is looked for.
    have hnone : c.input.ahead = [] := List.drop_eq_nil_of_le (Nat.le_of_not_le hinside)
    have hread : Ping.decoder c.context c.input = .ok ⟨none⟩ c.input := by
      rw [Ping.decoder]
      show andThen atEnd _ c.context c.input = _
      rw [andThen, atEnd, hnone]
      rfl
    rw [Cursor.read, hread] at hfault
    cases hfault

/-- **Of all accesses to a store only those to an empty range can miss it**, and they do so where
the cursor is behind the end.  Every other number of bytes, every count, list and record is read, or
the answer is that there are too few bytes. -/
theorem empty_ranges_alone (c : Cursor) (hposition : c.position < Cursor.positionLimit) :
    (∀ n, c.Addresses n (take n) ∧ c.Addresses n (fixedString n) ∧ c.Serves n (skip n)) ∧
      (c.Serves 1 uint8 ∧ c.Serves 1 int8 ∧ c.Serves 1 Decoder.bool ∧ c.Serves 2 uint16 ∧
        c.Serves 4 uint32 ∧ c.Serves 4 int32 ∧ c.Serves 8 uint64 ∧ c.Serves 8 int64) ∧
      (CompactSize.decoder.Sound ∧ Decoder.length.Sound ∧ varBytes.Sound ∧ varString.Sound ∧
        ∀ (α : Type) (d : Decoder α), d.Steady → (vector d).Sound) ∧
      (Version.decoder.Sound ∧ (pure Message.verack : Decoder Message).Sound ∧
        Ping.decoder.Sound ∧ Message.inventoryDecoder.Sound ∧ Tx.decoder.Sound ∧
        Block.decoder.Sound ∧ MerkleBlock.decoder.Sound ∧ BlockHeader.decoder.Sound ∧
        NetAddress.decoder.Sound ∧ Inventory.decoder.Sound ∧ OutPoint.decoder.Sound ∧
        TxIn.decoder.Sound ∧ TxOut.decoder.Sound ∧ hashDecoder.Sound) ∧
      (∀ start stop, (c.slice? start stop).isSome ↔ start ≤ stop ∧ stop ≤ c.capacity) ∧
      c.written.length = min c.position c.capacity ∧
      c.put [] = if c.data.length < c.position then .error .outOfBounds else .ok c := by
  have hbyte := (c.serves_unsigned 0).map UInt8.ofNat
  have hword := (c.serves_unsigned 3).map UInt32.ofNat
  have hlong := (c.serves_unsigned 7).map UInt64.ofNat
  refine ⟨fun n => ⟨c.addresses_take n, (c.addresses_take n).map _, c.serves_skip n⟩,
    ⟨hbyte, hbyte.map _, hbyte.map _, (c.serves_unsigned 1).map _, hword, hword.map _, hlong,
      hlong.map _⟩,
    ⟨sound_compactSize, sound_length, sound_varBytes, sound_varBytes.map _,
      fun _ _ => sound_vector⟩,
    ⟨Version.sound, sound_pure _, Ping.sound, sound_vector Inventory.steady, Tx.sound, Block.sound,
      MerkleBlock.sound, BlockHeader.sound, NetAddress.sound, Inventory.sound, OutPoint.sound,
      TxIn.sound, TxOut.sound, needs_hash.sound (by decide) (steady_of_reads reads_hash)⟩,
    ?_, List.length_take, c.put_nothing hposition⟩
  intro start stop
  rw [Cursor.slice?, Cursor.capacity]
  split <;> simp_all

/-- Three bytes, and the cursor two places behind their end. -/
def strayed : Cursor := ⟨[1, 2, 3], 5, .little⟩

/-- With the cursor behind the end there is no empty range, while one byte is merely missing.  A
list begins with a count, and so it is merely missing, too. -/
theorem empty_ranges_alone_strayed :
    strayed.position < Cursor.positionLimit ∧
      strayed.read (take 0) = (.error .outOfBounds, strayed) ∧
      strayed.read (take 1) = (.error (.unexpectedEnd 1 0), strayed) ∧
      strayed.put [] = .error .outOfBounds ∧ (vector TxOut.decoder).Sound := by
  have hposition : strayed.position < Cursor.positionLimit := by decide
  obtain ⟨hranges, -, ⟨-, -, -, -, hvector⟩, -, -, -, hput⟩ := empty_ranges_alone strayed hposition
  have hone : strayed.Serves 1 (take 1) := (hranges 1).1.serves_iff.mpr fun hnone =>
    Nat.one_ne_zero hnone.1
  exact ⟨hposition, (hranges 0).1.misses ⟨rfl, by decide⟩, hone.short (by decide), hput,
    hvector _ _ TxOut.steady⟩

/-- An empty range is missing there, and so taking no bytes does not do what is to be expected. -/
theorem nothing_taken_behind_end : ¬ ∀ (c : Cursor) (n : Nat), c.Serves n (take n) := by
  intro hserves
  obtain ⟨bs, hread⟩ := (hserves strayed 0).enough (Nat.zero_le _)
  rw [(strayed.addresses_take 0).misses ⟨rfl, by decide⟩] at hread
  cases hread

end LightPeer
