import LightPeer.Message.Basic
import LightPeer.Proofs.Record.Fixed
import LightPeer.Proofs.Wire.Store

/-!
# No payload does harm

A peer chooses every byte of a payload, every count in it as well, and a reading may fail at any
field, inside of lists and inside of a part that is read in a byte order of its own.  Whatever it
chooses, the answer is a message or the reason why there is none, and the store that was read is
as it was but for the cursor, which has gone forward within the data.

Every decoder is put together from steady ones.  So the argument follows the definitions, one
lemma for each record.

* `decoder?_steady` — the reader of every command is steady;
* `decoders_careful` — payloads and records, read from a store.
-/

namespace LightPeer

open Wire Wire.Decoder

/-- An address is read steadily: its fields are, and there is nothing else to it.  The records below
are made of such parts, and of lists and byte strings. -/
theorem NetAddress.steady : NetAddress.decoder.Steady :=
  steady_of_reads reads_pieces

theorem Inventory.steady : Inventory.decoder.Steady :=
  steady_of_reads reads_pieces

theorem OutPoint.steady : OutPoint.decoder.Steady :=
  steady_of_reads OutPoint.reads_pieces

theorem BlockHeader.steady : BlockHeader.decoder.Steady :=
  steady_of_reads reads_pieces

theorem TxIn.steady : TxIn.decoder.Steady :=
  OutPoint.steady.bind fun _ => (steady_of_reads reads_varBytes).bind fun _ =>
    (steady_of_reads reads_uint32).bind fun _ => steady_pure _

theorem TxOut.steady : TxOut.decoder.Steady :=
  (steady_of_reads reads_int64).bind fun _ => (steady_of_reads reads_varBytes).bind fun _ =>
    steady_pure _

theorem TxBody.steady : TxBody.decoder.Steady :=
  Steady.withOrder ((steady_of_reads reads_int32).bind fun _ => TxIn.steady.vector.bind fun _ =>
    TxOut.steady.vector.bind fun _ => (steady_of_reads reads_uint32).bind fun _ =>
    steady_pure _) .little

theorem Tx.steady : Tx.decoder.Steady :=
  (steady_of_reads fun order => (TxBody.steady order).withConsumed).bind fun _ => steady_pure _

theorem Block.steady : Block.decoder.Steady :=
  BlockHeader.steady.bind fun _ => Tx.steady.vector.bind fun _ => steady_pure _

theorem MerkleBlock.steady : MerkleBlock.decoder.Steady :=
  BlockHeader.steady.bind fun _ => Steady.withOrder ((steady_of_reads reads_uint32).bind fun _ =>
    (steady_of_reads reads_hash).vector.bind fun _ => (steady_of_reads reads_varBytes).bind fun _ =>
    steady_pure _) .little

theorem Version.steady : Version.decoder.Steady := by
  have htext : varString.Steady := (steady_of_reads reads_varBytes).bind fun _ => steady_pure _
  have hbool : Decoder.bool.Steady := (steady_of_reads reads_uint8).bind fun _ => steady_pure _
  exact Steady.withOrder ((steady_of_reads reads_int32).bind fun _ =>
    (steady_of_reads reads_uint64).bind fun _ => (steady_of_reads reads_int64).bind fun _ =>
    NetAddress.steady.bind fun _ => NetAddress.steady.bind fun _ =>
    (steady_of_reads reads_uint64).bind fun _ => htext.bind fun _ =>
    Steady.bind_ite (steady_of_reads reads_int32) (steady_pure _) fun _ =>
    steady_atEnd.bind fun _ => Steady.bind_ite hbool (steady_pure _) fun _ => steady_pure _) .little

theorem Ping.steady : Ping.decoder.Steady :=
  steady_atEnd.bind fun _ => (steady_pure _).ite <|
    ((steady_of_reads reads_uint64).withOrder .little).bind fun _ => steady_pure _

namespace Message

theorem inventory_steady : inventoryDecoder.Steady :=
  Inventory.steady.vector

/-- Every command is read steadily. -/
theorem decoder?_steady {command : String} {d : Decoder Message} (h : decoder? command = some d) :
    d.Steady := by
  have hmap {α : Type} {d' : Decoder α} (hd : d'.Steady) (f : α → Message) :
      (d' >>= fun a => pure (f a)).Steady :=
    hd.bind fun a => steady_pure (f a)
  rw [decoder?] at h
  split at h
  · cases h
    exact hmap Version.steady .version
  · split at h
    · cases h
      exact steady_pure Message.verack
    · split at h
      · cases h
        exact hmap Ping.steady .ping
      · split at h
        · cases h
          exact hmap inventory_steady .inv
        · split at h
          · cases h
            exact hmap Tx.steady .tx
          · split at h
            · cases h
              exact hmap Block.steady .block
            · split at h
              · cases h
                exact hmap MerkleBlock.steady .merkleBlock
              · cases h

/-- A payload is a store whose cursor stands at the start. -/
theorem decode_ne_outOfBounds (command : String) (payload : Bytes) :
    decode command payload ≠ .error .outOfBounds := by
  rw [decode]
  split
  · nofun
  · next d hd =>
    have hread := ((decoder?_steady hd).careful (.wrap payload) (Nat.zero_le _)).2
    change d.decode payload ≠ _ at hread
    split
    · next e he =>
      rw [he] at hread
      rintro ⟨⟩
      exact hread rfl
    · nofun

end Message

/-- **No payload does harm.**  A payload of any command gives a message, nothing, or a reason other
than that a range outside of it was addressed.  A record of any kind, read in either byte order
from a store whose cursor lies within its data, leaves the data and the byte order as they were and
the cursor within the data, not behind the place where it stood, whether it is read or not. -/
theorem decoders_careful :
    (∀ command payload, Message.decode command payload ≠ .error .outOfBounds) ∧
      Careful Version.decoder ∧ Careful (pure Message.verack : Decoder Message) ∧
      Careful Ping.decoder ∧ Careful Message.inventoryDecoder ∧ Careful Tx.decoder ∧
      Careful Block.decoder ∧ Careful MerkleBlock.decoder ∧ Careful BlockHeader.decoder ∧
      Careful NetAddress.decoder ∧ Careful Inventory.decoder ∧ Careful OutPoint.decoder ∧
      Careful TxIn.decoder ∧ Careful TxOut.decoder ∧ Careful hashDecoder :=
  ⟨Message.decode_ne_outOfBounds, Version.steady.careful, (steady_pure _).careful,
    Ping.steady.careful, Message.inventory_steady.careful, Tx.steady.careful, Block.steady.careful,
    MerkleBlock.steady.careful, BlockHeader.steady.careful, NetAddress.steady.careful,
    Inventory.steady.careful, OutPoint.steady.careful, TxIn.steady.careful, TxOut.steady.careful,
    (steady_of_reads reads_hash).careful⟩

end LightPeer
