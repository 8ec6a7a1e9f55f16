import LightPeer.Proofs.Wire.Reading
import LightPeer.Record.BlockHeader
import LightPeer.Record.Inventory
import LightPeer.Record.NetAddress
import LightPeer.Record.Tx

/-!
# Records of a fixed size

Peer addresses, inventory entries, names of outputs and block headers are rows of fields of a
fixed width, so a record and its bytes determine each other.

For each of them `parses_pieces` says that a record is read from its fields, and `reads_pieces`
that the bytes it was read from are its fields.  An entry has to give the kind of its object by
name where the kind has one, and a header is hashed as it came.

* `BlockHeader.exists_pieces` — any 80 bytes are the fields of a header.
-/

namespace LightPeer

open Wire Wire.Decoder

namespace NetAddress

/-- The port of an address stands in network order, whatever the order of the rest. -/
theorem flatten_pieces (a : NetAddress) :
    a.pieces.flatten = Bytes.ofNat .little 8 a.services.bits.toNat ++ (a.ip.bytes ++
      Bytes.ofNat .big 2 a.port.toNat) := by
  simp only [pieces, List.flatten_cons, List.flatten_nil, List.append_nil]

/-- An address that was written is read, in whatever order. -/
theorem parses_pieces (order : ByteOrder) (a : NetAddress) :
    Parses order decoder a.pieces.flatten a := by
  rw [flatten_pieces]
  exact Parses.withOrder <| (parses_uint64 .little a.services.bits).bind <|
    (parses_exactly .little a.ip.length_bytes).bind <|
    ((parses_uint16 .big a.port).withOrder).map
      fun port => NetAddress.mk a.services a.ip port

/-- An address is read from the bytes that it is written as, and from no others. -/
theorem reads_pieces (order : ByteOrder) :
    Reads order decoder fun bs a => bs = a.pieces.flatten :=
  Reads.withOrder <| ((reads_uint64 .little).bind fun services =>
    (reads_exactly .little 16).bind fun ip =>
    (reads_uint16 .big).withOrder.map
      fun port => NetAddress.mk ⟨services⟩ ⟨ip.val, ip.property⟩ port).mono fun bs a => by
    rintro ⟨services, _, _, rfl, rfl, ip, _, _, rfl, rfl, port, rfl, rfl⟩
    rw [flatten_pieces]

end NetAddress

/-- A kind is given by its name where it has one. -/
def InventoryKind.Named (kind : InventoryKind) : Prop :=
  ∀ number, kind = .other number → 4 ≤ number

/-- The number of a kind leads back to the kind.  One that has a name and is given by its number
would not come back so. -/
theorem InventoryKind.ofNumber_toNumber {kind : InventoryKind} (h : kind.Named) :
    ofNumber kind.toNumber = kind := by
  cases kind with
  | error => rfl
  | tx => rfl
  | block => rfl
  | filteredBlock => rfl
  | other number =>
    have hnumber := h number rfl
    rw [toNumber, ofNumber, if_neg (by grind), if_neg (by grind), if_neg (by grind),
      if_neg (by grind)]

/-- A kind that was read from a number has its name. -/
theorem InventoryKind.named_ofNumber (number : UInt32) : (ofNumber number).Named := by
  intro other hother
  unfold ofNumber at hother
  split_ifs at hother with herror htx hblock hfiltered
  cases hother
  grind

namespace Inventory

theorem flatten_pieces (i : Inventory) :
    i.pieces.flatten = Bytes.ofNat .little 4 i.kind.toNumber.toNat ++ i.hash.bytes := by
  simp only [pieces, List.flatten_cons, List.flatten_nil, List.append_nil]

/-- An entry that was written is read. -/
theorem parses_pieces (order : ByteOrder) {i : Inventory} (hkind : i.kind.Named) :
    Parses order decoder i.pieces.flatten i := by
  have hback : Inventory.mk (.ofNumber i.kind.toNumber) i.hash = i := by
    rw [InventoryKind.ofNumber_toNumber hkind]
  have hhash := (parses_hash .little i.hash).map (Inventory.mk (.ofNumber i.kind.toNumber))
  rw [hback] at hhash
  rw [flatten_pieces]
  exact Parses.withOrder <| (parses_uint32 .little i.kind.toNumber).bind hhash

/-- An entry is read from its own bytes, and its kind has its name. -/
theorem reads_named (order : ByteOrder) :
    Reads order decoder fun bs i => bs = i.pieces.flatten ∧ i.kind.Named :=
  Reads.withOrder <| ((reads_uint32 .little).bind fun number =>
    (reads_hash .little).map (Inventory.mk (.ofNumber number))).mono fun bs i => by
    rintro ⟨number, _, _, rfl, rfl, hash, rfl, rfl⟩
    rw [flatten_pieces, InventoryKind.toNumber_ofNumber]
    exact ⟨rfl, InventoryKind.named_ofNumber number⟩

/-- An entry is read from the bytes that it is written as, and from no others. -/
theorem reads_pieces (order : ByteOrder) :
    Reads order decoder fun bs i => bs = i.pieces.flatten :=
  (reads_named order).mono fun _ _ hread => hread.1

end Inventory

namespace OutPoint

/-- The index of an output stands in the order in force. -/
theorem flatten_pieces (order : ByteOrder) (o : OutPoint) :
    (o.pieces order).flatten = o.hash.bytes ++ Bytes.ofNat order 4 o.index.toNat := by
  simp only [pieces, List.flatten_cons, List.flatten_nil, List.append_nil]

/-- The name of an output is read in the order it was written in. -/
theorem parses_pieces (order : ByteOrder) (o : OutPoint) :
    Parses order decoder (o.pieces order).flatten o := by
  rw [flatten_pieces]
  exact (parses_hash order o.hash).bind <| (parses_uint32 order o.index).map (OutPoint.mk o.hash)

/-- The name of an output is read from the bytes that it is written as, and from no others. -/
theorem reads_pieces (order : ByteOrder) :
    Reads order decoder fun bs o => bs = (o.pieces order).flatten :=
  ((reads_hash order).bind fun hash =>
    (reads_uint32 order).map (OutPoint.mk hash)).mono fun bs o => by
    rintro ⟨hash, _, _, rfl, rfl, index, rfl, rfl⟩
    rw [flatten_pieces]

end OutPoint

namespace BlockHeader

/-- The fields of a header stand one behind the other, and all numbers in it have their least byte
first. -/
theorem flatten_pieces (h : BlockHeader) :
    h.pieces.flatten = int32Bytes .little h.version ++ (h.previous.bytes ++ (h.merkleRoot.bytes ++
      (Bytes.ofNat .little 4 h.timestamp.toNat ++ (Bytes.ofNat .little 4 h.bits.toNat ++
        Bytes.ofNat .little 4 h.nonce.toNat)))) := by
  simp only [pieces, List.flatten_cons, List.flatten_nil, List.append_nil]

/-- The header with these fields is read from them, and hashed as it came. -/
theorem parses_pieces (order : ByteOrder) (h : BlockHeader) :
    Parses order decoder h.pieces.flatten { h with hash := Hash256.digest h.pieces.flatten } := by
  have hnonce := (parses_uint32 .little h.nonce).map
    (BlockHeader.mk h.version h.previous h.merkleRoot h.timestamp h.bits · .zero)
  have hfields : Parses order (Decoder.withOrder .little do
      let version ← Decoder.int32
      let previous ← hashDecoder
      let merkleRoot ← hashDecoder
      let timestamp ← Decoder.uint32
      let bits ← Decoder.uint32
      let nonce ← Decoder.uint32
      return BlockHeader.mk version previous merkleRoot timestamp bits nonce .zero)
      h.pieces.flatten { h with hash := .zero } := by
    rw [flatten_pieces]
    exact Parses.withOrder <| (parses_int32 .little h.version).bind <|
      (parses_hash .little h.previous).bind <| (parses_hash .little h.merkleRoot).bind <|
      (parses_uint32 .little h.timestamp).bind <| (parses_uint32 .little h.bits).bind hnonce
  exact hfields.withConsumed.bind_nil (parses_pure order _)

/-- A header is read from the bytes that it is written as, and it is named by the hash of these. -/
theorem reads_pieces (order : ByteOrder) :
    Reads order decoder fun bs h => bs = h.pieces.flatten ∧ h.hash = Hash256.digest bs :=
  (((Reads.withOrder <| (reads_int32 .little).bind fun version =>
    (reads_hash .little).bind fun previous => (reads_hash .little).bind fun merkleRoot =>
    (reads_uint32 .little).bind fun timestamp => (reads_uint32 .little).bind fun bits =>
    (reads_uint32 .little).map fun nonce =>
      BlockHeader.mk version previous merkleRoot timestamp bits nonce .zero).withConsumed).map
    fun read => { read.1 with hash := Hash256.digest read.2 }).mono fun bs h => by
    rintro ⟨⟨_, _⟩, ⟨⟨version, _, _, rfl, rfl, previous, _, _, rfl, rfl, merkleRoot, _, _, rfl, rfl,
      timestamp, _, _, rfl, rfl, bits, _, _, rfl, rfl, nonce, rfl, rfl⟩, rfl⟩, rfl⟩
    rw [flatten_pieces]
    exact ⟨rfl, rfl⟩

/-- A header has eighty bytes, whatever is in it, and so its bytes can be cut out without being
read. -/
theorem length_flatten_pieces (h : BlockHeader) : h.pieces.flatten.length = 80 := by
  simp only [flatten_pieces, List.length_append, int32Bytes, Bytes.length_ofNat,
    Hash256.length_bytes]

/-- Any four bytes are a word. -/
theorem exists_word {bs : Bytes} (h : bs.length = 4) :
    ∃ n : UInt32, Bytes.ofNat .little 4 n.toNat = bs := by
  have hlt := Bytes.toNat_lt .little bs
  have hback := Bytes.ofNat_toNat .little bs
  rw [h] at hlt hback
  exact ⟨UInt32.ofNat (Bytes.toNat .little bs), by
    rw [UInt32.toNat_ofNat_of_lt' hlt, hback]⟩

/-- Any four bytes are a number with a sign. -/
theorem exists_int32 {bs : Bytes} (h : bs.length = 4) : ∃ n : Int32, int32Bytes .little n = bs := by
  obtain ⟨n, hn⟩ := exists_word h
  exact ⟨n.toInt32, by rw [int32Bytes, UInt32.toUInt32_toInt32, hn]⟩

/-- **Any 80 bytes are the fields of a header.**  So nothing but a lack of bytes can keep one from
being read. -/
theorem exists_pieces {header : Bytes} (hlength : header.length = 80) :
    ∃ h : BlockHeader, h.pieces.flatten = header ∧
      h.merkleRoot.bytes = (header.drop 36).take 32 := by
  have hfield (start size : Nat) (hfit : start + size ≤ 80) :
      ((header.drop start).take size).length = size := by
    rw [List.length_take, List.length_drop, hlength]
    omega
  have hnext (start size : Nat) :
      (header.drop start).take size ++ header.drop (start + size) = header.drop start := by
    rw [← List.drop_drop, List.take_append_drop]
  obtain ⟨version, hversion⟩ := exists_int32 (hfield 0 4 (by decide))
  obtain ⟨timestamp, htimestamp⟩ := exists_word (hfield 68 4 (by decide))
  obtain ⟨bits, hbits⟩ := exists_word (hfield 72 4 (by decide))
  obtain ⟨nonce, hnonce⟩ := exists_word (show (header.drop 76).length = 4 by
    rw [List.length_drop, hlength])
  refine ⟨⟨version, ⟨_, hfield 4 32 (by decide)⟩, ⟨_, hfield 36 32 (by decide)⟩, timestamp, bits,
    nonce, .zero⟩, ?_, rfl⟩
  rw [flatten_pieces]
  simp only [hversion, htimestamp, hbits, hnonce, hnext 72 4, hnext 68 4, hnext 36 32, hnext 4 32,
    List.drop_zero, List.take_append_drop]

end BlockHeader

end LightPeer
