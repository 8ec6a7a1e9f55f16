import LightPeer.Message.Basic
import LightPeer.Proofs.Message.Block
import LightPeer.Proofs.Message.Commands
import LightPeer.Proofs.Text.Utf8

/-!
# What is written is read again

The records that go both ways are read from the bytes that they are written as, whatever comes
behind these bytes.  The outer byte order matters to the parts of a transaction only, which are
written and read in the same one.

An entry of an inventory has to give the kind of its object by name where the kind has one, and an
introduction has to be of a version that carries all of its fields.  Whatever is counted, is
counted in 64 bits.

* `TxIn.parses_pieces`, `TxOut.parses_pieces` — the parts of a transaction;
* `Version.parses_pieces` — introductions, whose last field is there if bytes are left;
* `Block.parses_encoded` — the blocks that are made of written transactions;
* `records_round_trip` — all of the records.
-/

namespace LightPeer

open Wire Wire.Decoder
open Wire.CompactSize (Form)

/-- An input that was written is read in the order it was written in. -/
theorem TxIn.parses_pieces (order : ByteOrder) {i : TxIn} (hscript : i.script.length < 2 ^ 64) :
    Parses order decoder (i.pieces order).flatten i := by
  rw [flatten_pieces]
  exact parses_spelled (CompactSize.form_encode_ofNat hscript)

/-- So is an output. -/
theorem TxOut.parses_pieces (order : ByteOrder) {o : TxOut} (hscript : o.script.length < 2 ^ 64) :
    Parses order decoder (o.pieces order).flatten o := by
  rw [flatten_pieces]
  exact parses_spelled (CompactSize.form_encode_ofNat hscript)

/-- A text that was written is read, since every text is good UTF-8. -/
theorem Wire.Decoder.parses_varString (order : ByteOrder) {text : String}
    (htext : (Utf8.encode text).length < 2 ^ 64) :
    Parses order varString (varBytesPieces (Utf8.encode text)).flatten text := by
  have h := (parses_varBytes order htext).map Utf8.decodeLossy
  rw [Utf8.decodeLossy_encode] at h
  exact h

namespace Version

/-- The fields of an introduction of a version that has them all stand one behind the other. -/
theorem flatten_pieces {v : Version} (hversion : relayAfter < v.version) :
    v.pieces.flatten = int32Bytes .little v.version ++
      (Bytes.ofNat .little 8 v.services.bits.toNat ++ (int64Bytes .little v.timestamp ++
        (v.receiver.pieces.flatten ++ (v.sender.pieces.flatten ++
          (Bytes.ofNat .little 8 v.nonce.toNat ++
            ((varBytesPieces (Utf8.encode v.userAgent)).flatten ++
              (int32Bytes .little v.startHeight ++ [if v.relay then 1 else 0]))))))) := by
  simp only [pieces, if_pos hversion, List.flatten_append, List.flatten_cons, List.flatten_nil,
    List.append_nil, List.append_assoc]

/-- An introduction with all of its fields is read from them. -/
theorem parses_pieces (order : ByteOrder) {v : Version} (hversion : relayAfter < v.version)
    (hagent : (Utf8.encode v.userAgent).length < 2 ^ 64) :
    Parses order decoder v.pieces.flatten v := by
  have hconfirmed : confirmedSince ≤ v.version :=
    Int32.le_of_lt (Int32.lt_trans (by decide : confirmedSince < relayAfter) hversion)
  have hrelay := (parses_bool .little v.relay).map
    (Version.mk v.version v.services v.timestamp v.receiver v.sender v.nonce v.userAgent
      v.startHeight)
  rw [flatten_pieces hversion]
  refine Parses.withOrder <| (parses_int32 .little v.version).bind <|
    (parses_uint64 .little v.services.bits).bind <| (parses_int64 .little v.timestamp).bind <|
    (v.receiver.parses_pieces .little).bind <| (v.sender.parses_pieces .little).bind <|
    (parses_uint64 .little v.nonce).bind <| (parses_varString .little hagent).bind ?_
  dsimp only
  rw [if_pos hconfirmed]
  refine (parses_int32 .little v.startHeight).bind (.behind_atEnd ?_ (List.cons_ne_nil _ _))
  rw [if_pos (by simpa using hversion)]
  exact hrelay

end Version

/-- A block is read from any 80 bytes, any form of the number of its transactions, and these
transactions as they are written. -/
theorem Block.parses_encoded {header count : Bytes} {bodies : List TxBody}
    (hheader : header.length = 80) (hcount : Form count bodies.length)
    (hbodies : ∀ t ∈ bodies, t.Fits) :
    ∃ h : BlockHeader, h.pieces.flatten = header ∧ h.hash = Hash256.digest header ∧
      ∀ order, Parses order decoder (header ++ (count ++ (bodies.map TxBody.encode).flatten))
        ⟨h, bodies.map Tx.ofBody⟩ := by
  obtain ⟨h, rfl, -⟩ := BlockHeader.exists_pieces hheader
  refine ⟨{ h with hash := Hash256.digest h.pieces.flatten }, rfl, rfl, fun order => ?_⟩
  rw [← List.length_map (f := Tx.ofBody)] at hcount
  refine parses_slices order h hcount ?_ ?_
  · rw [List.forall₂_map_left_iff, List.forall₂_map_right_iff, List.forall₂_same]
    exact fun t ht => Tx.parses_encode order (hbodies t ht)
  · intro slice hslice
    obtain ⟨t, -, rfl⟩ := List.mem_map.mp hslice
    exact t.encode_ne_nil

/-- **What is written is read again**, from wherever it stands and with whatever comes behind it,
and the cursor then stands where that begins.  So it is with the records that go both ways, and
with the blocks that are made of written transactions. -/
theorem records_round_trip :
    (∀ order (a : NetAddress), Parses order NetAddress.decoder a.pieces.flatten a) ∧
      (∀ order (i : Inventory), i.kind.Named →
        Parses order Inventory.decoder i.pieces.flatten i) ∧
      (∀ order (o : OutPoint), Parses order OutPoint.decoder (o.pieces order).flatten o) ∧
      (∀ order (i : TxIn), i.script.length < 2 ^ 64 →
        Parses order TxIn.decoder (i.pieces order).flatten i) ∧
      (∀ order (o : TxOut), o.script.length < 2 ^ 64 →
        Parses order TxOut.decoder (o.pieces order).flatten o) ∧
      (∀ order (t : TxBody), t.Fits → Parses order Tx.decoder t.encode (Tx.ofBody t)) ∧
      (∀ order (v : Version), relayAfter < v.version →
        (Utf8.encode v.userAgent).length < 2 ^ 64 →
          Parses order Version.decoder v.pieces.flatten v) ∧
      ∀ (header count : Bytes) (bodies : List TxBody), header.length = 80 →
        Form count bodies.length → (∀ t ∈ bodies, t.Fits) →
          ∃ h : BlockHeader, h.pieces.flatten = header ∧ h.hash = Hash256.digest header ∧
            (∀ order, Parses order Block.decoder
              (header ++ (count ++ (bodies.map TxBody.encode).flatten))
              ⟨h, bodies.map Tx.ofBody⟩) ∧
            Message.decode "block" (header ++ (count ++ (bodies.map TxBody.encode).flatten)) =
              .ok (some (.block ⟨h, bodies.map Tx.ofBody⟩)) := by
  refine ⟨NetAddress.parses_pieces, fun order _ => Inventory.parses_pieces order,
    OutPoint.parses_pieces, fun order _ => TxIn.parses_pieces order,
    fun order _ => TxOut.parses_pieces order, fun order _ => Tx.parses_encode order,
    fun order _ => Version.parses_pieces order, ?_⟩
  intro header count bodies hheader hcount hbodies
  obtain ⟨h, hpieces, hhash, hparses⟩ := Block.parses_encoded hheader hcount hbodies
  exact ⟨h, hpieces, hhash, hparses,
    Message.decode_of_parses rfl ((hparses .little).map Message.block)⟩

/-- A transaction with a script whose length takes three bytes. -/
def scriptedTx : TxBody where
  version := 2
  inputs := [⟨⟨.zero, 1⟩, Bytes.replicate 253 0xAC, 0⟩]
  outputs := [⟨-1, []⟩]
  lockTime := 0

/-- An introduction that is all zeros but for its version and the name of its program. -/
def namedVersion : Version :=
  { (default : Version) with version := protocolVersion, userAgent := "/\u00e9/" }

/-- An entry of an unknown kind, an input, an output, a transaction and an introduction are read as
they were written, all under the order that is not theirs. -/
theorem records_round_trip_scripted :
    Parses .big Inventory.decoder (Inventory.pieces ⟨.other 4, .zero⟩).flatten ⟨.other 4, .zero⟩ ∧
      Parses .big TxIn.decoder (TxIn.pieces .big ⟨⟨.zero, 1⟩, [0xAC], 0⟩).flatten
        ⟨⟨.zero, 1⟩, [0xAC], 0⟩ ∧
      Parses .big TxOut.decoder (TxOut.pieces .big ⟨-1, []⟩).flatten ⟨-1, []⟩ ∧
      Parses .big Tx.decoder scriptedTx.encode (Tx.ofBody scriptedTx) ∧
      Parses .big Version.decoder namedVersion.pieces.flatten namedVersion ∧
      ∃ h : BlockHeader, h.pieces.flatten = Bytes.replicate 80 0 ∧
        Message.decode "block" (Bytes.replicate 80 0 ++
            ([2] ++ ([scriptedTx, scriptedTx].map TxBody.encode).flatten)) =
          .ok (some (.block ⟨h, [scriptedTx, scriptedTx].map Tx.ofBody⟩)) := by
  have hfits : scriptedTx.Fits := by
    constructor <;> simp [scriptedTx, Bytes.length_replicate]
  have hkind : (InventoryKind.other 4).Named := by
    rintro _ ⟨⟩
    decide
  obtain ⟨-, hinventory, -, hinput, houtput, htx, hversion, hblock⟩ := records_round_trip
  obtain ⟨h, hpieces, -, -, hdecode⟩ := hblock (Bytes.replicate 80 0) [2] [scriptedTx, scriptedTx]
    (Bytes.length_replicate 80 0) (.short (by decide)) (by simp [hfits])
  exact ⟨hinventory .big ⟨.other 4, .zero⟩ hkind, hinput .big _ (by decide),
    houtput .big _ (by decide), htx .big _ hfits,
    hversion .big namedVersion (by decide) (by decide), h, hpieces, hdecode⟩

end LightPeer
