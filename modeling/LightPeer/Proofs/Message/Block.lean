import LightPeer.Message.Block
import LightPeer.Proofs.Record.Spelling
import LightPeer.Proofs.Wire.Store

/-!
# The bytes that a block is named by

A block and each of its transactions are named by the hash of bytes, of those that they were read
from.  These bytes are found in the block: first the header, then a count, then one slice for each
transaction.  A transaction may be spelled with counts that are longer than they need to be.  It
keeps the name of the bytes it was read from, but is written in other and fewer bytes then.

* `Block.parses_slices` — a block is read from such a row of bytes;
* `Block.reads_slices` — and from nothing else;
* `Tx.readFrom_of_spelled` — what the slice of a transaction says of it;
* `read_block_slices` — the block that is read from a store.
-/

namespace LightPeer

open Wire Wire.Decoder
open Wire.CompactSize (Form Shortest)

namespace Block

variable {count : Bytes} {slices : List Bytes}

/-- A block is read from the fields of its header, a form of the number of its transactions, and a
slice for each of them. -/
theorem parses_slices (order : ByteOrder) (h : BlockHeader) {transactions : List Tx}
    (hcount : Form count transactions.length)
    (hslices : List.Forall₂ (Parses order Tx.decoder) slices transactions)
    (hsome : ∀ slice ∈ slices, slice ≠ []) :
    Parses order decoder (h.pieces.flatten ++ (count ++ slices.flatten))
      ⟨{ h with hash := Hash256.digest h.pieces.flatten }, transactions⟩ :=
  (h.parses_pieces order).bind <| (Decoder.parses_slices order hcount hslices hsome).map _

/-- **A block is read from the bytes of its header, a form of the number of its transactions, and
one slice for each of them, and from nothing else.** -/
theorem reads_slices (order : ByteOrder) :
    Reads order decoder fun bs b => ∃ count slices,
      bs = b.header.pieces.flatten ++ (count ++ slices.flatten) ∧
        b.hash = Hash256.digest b.header.pieces.flatten ∧ Form count b.transactions.length ∧
        List.Forall₂ (fun slice (tx : Tx) => tx.txid = Hash256.digest slice ∧
          ∃ c : TxCounts, c.All Form tx.toTxBody ∧ slice = tx.spelled c) slices b.transactions :=
  ((BlockHeader.reads_pieces order).bind fun header =>
    (reads_vector (Tx.reads_spelled order)).map (Block.mk header)).mono fun bs b => by
    rintro ⟨header, _, _, rfl, ⟨rfl, hhash⟩, transactions, ⟨count, slices, rfl, hcount, hslices⟩,
      rfl⟩
    exact ⟨count, slices, rfl, hhash, hcount, hslices⟩

end Block

namespace Tx

/-- The bytes `slice` are those that a transaction was read from. -/
structure ReadFrom (slice : Bytes) (tx : Tx) : Prop where
  decode_eq : Tx.decoder.decode slice = .ok tx
  txid_eq : tx.txid = Hash256.digest slice
  /-- Written again it is never longer. -/
  length_encode_le : tx.encode.length ≤ slice.length
  /-- The fields leave nothing open but the forms of the counts. -/
  spelled : ∃ c : TxCounts, c.All Form tx.toTxBody ∧ slice = tx.spelled c
  /-- It is written as it was if every count is in its shortest form, and only then. -/
  encode_eq_iff : ∀ c : TxCounts, c.All Form tx.toTxBody → slice = tx.spelled c →
    (tx.encode = slice ↔ c.All Shortest tx.toTxBody)
  /-- The transaction that is made of the same fields then has the same name. -/
  ofBody_eq : tx.encode = slice → ofBody tx.toTxBody = tx

/-- All that is to be said of a slice follows from its being a spelling of the transaction that has
its hash for a name. -/
theorem readFrom_of_spelled {slice : Bytes} {tx : Tx} (hname : tx.txid = Hash256.digest slice)
    (hspelled : ∃ c : TxCounts, c.All Form tx.toTxBody ∧ slice = tx.spelled c) :
    tx.ReadFrom slice := by
  obtain ⟨c, hforms, hslice⟩ := hspelled
  have hparses : Parses .little Tx.decoder slice ⟨tx.toTxBody, Hash256.digest slice⟩ := by
    refine parses_of_body .little ?_
    rw [hslice]
    exact TxBody.parses_spelled .little hforms
  rw [← hname] at hparses
  refine ⟨hparses.decode_eq, hname, ?_, ⟨c, hforms, hslice⟩, ?_, ?_⟩
  · rw [hslice]
    exact (TxBody.rewrites_spelled hforms).length_le
  · rintro c' hforms' rfl
    exact (TxBody.rewrites_spelled hforms').eq_iff
  · intro hsame
    rw [ofBody, hsame, ← hname]

end Tx

/-- **A block and its transactions are named by the bytes they were read from.**  These are the
header, a count, and one slice for each transaction, one behind the other, from the place where
the cursor stood to the place where it stands afterwards. -/
theorem read_block_slices {c after : Cursor} {b : Block}
    (h : c.read Block.decoder = (.ok b, after)) :
    ∃ header count slices,
      c.slice? c.position after.position = some (header ++ (count ++ slices.flatten)) ∧
        header.length = 80 ∧ b.header.pieces.flatten = header ∧ b.hash = Hash256.digest header ∧
        Form count b.transactions.length ∧
        List.Forall₂ (fun slice tx => Tx.ReadFrom slice tx) slices b.transactions := by
  have hheader (b : Block) : b.header.pieces.flatten.length = 80 := b.header.length_flatten_pieces
  obtain ⟨bs, ⟨count, slices, rfl, hhash, hcount, hslices⟩, hrange, -⟩ :=
    Cursor.slice?_of_read (Block.reads_slices c.order) (fun b => by
      rintro ⟨count, slices, hempty, -⟩
      have hlength := congrArg List.length hempty
      rw [List.length_append, hheader, List.length_nil] at hlength
      omega) h
  exact ⟨_, count, slices, hrange, hheader b, rfl, hhash, hcount,
    hslices.imp fun _ _ hslice => Tx.readFrom_of_spelled hslice.1 hslice.2⟩

/-- A transaction with an input and an output. -/
def spender : TxBody := ⟨1, [⟨⟨.zero, 7⟩, [0x51], 0⟩], [⟨50, [0x52, 0x53]⟩], 0⟩

/-- The number of its inputs and the length of the script of its output in three bytes, the others
in one. -/
def looseCounts : TxCounts := ⟨[0xFD, 1, 0], [[1]], [1], [[0xFD, 2, 0]]⟩

/-- All of these are forms of the numbers that they stand for. -/
theorem looseCounts_form : looseCounts.All Form spender :=
  ⟨.two rfl, .cons (.short (by decide)) .nil, .short (by decide), .cons (.two rfl) .nil⟩

/-- The transaction in loose counts. -/
def looseSlice : Bytes := spender.spelled looseCounts

/-- Another transaction, in counts as short as can be. -/
def tightSlice : Bytes := TxBody.spelled ⟨1, [], [], 0⟩ ⟨[0], [], [0], []⟩

/-- A block of these transactions, their number in three bytes as well. -/
def looseBytes : Bytes :=
  (BlockHeader.pieces default).flatten ++ ([0xFD, 2, 0] ++ [looseSlice, tightSlice].flatten)

theorem length_looseBytes : looseBytes.length = 160 := by
  decide +kernel

/-- A store in which other bytes stand around some, with the cursor at the first of these. -/
def storeAround (bs : Bytes) : Cursor := ⟨7 :: (bs ++ [9]), 1, .big⟩

/-- What is parsed from bytes is read from them in the midst of a store. -/
theorem read_storeAround {α : Type} {d : Decoder α} {bs : Bytes} {a : α}
    (h : d.Parses .big bs a) :
    (storeAround bs).read d = (.ok a, { storeAround bs with position := 1 + bs.length }) := by
  have hahead : (storeAround bs).data.drop (storeAround bs).position = bs ++ [9] := rfl
  refine Cursor.read_of_parses h ?_ hahead
  rw [storeAround, List.length_cons]
  exact Nat.succ_le_succ (Nat.zero_le _)

/-- The slice is read as the transaction, under the name of its own bytes. -/
theorem looseSlice_parses :
    Parses .big Tx.decoder looseSlice ⟨spender, Hash256.digest looseSlice⟩ :=
  Tx.parses_of_body .big (TxBody.parses_spelled .big looseCounts_form)

/-- The block between the other bytes is read.  Of the first transaction in it the slice has four
bytes more than are written for it, and still it has the name of the slice. -/
theorem read_block_slices_loose :
    ∃ b after, (storeAround looseBytes).read Block.decoder = (.ok b, after) ∧ after.position = 161 ∧
      ∃ header count slices,
        (storeAround looseBytes).slice? 1 161 = some (header ++ (count ++ slices.flatten)) ∧
          header.length = 80 ∧ b.hash = Hash256.digest header ∧
          List.Forall₂ (fun slice tx => Tx.ReadFrom slice tx) slices b.transactions ∧
          ∃ first rest, b.transactions = first :: rest ∧ first.toTxBody = spender ∧
            first.txid = Hash256.digest looseSlice ∧
            first.encode.length + 4 = looseSlice.length := by
  have htight : TxCounts.All Form ⟨[0], [], [0], []⟩ ⟨1, [], [], 0⟩ :=
    ⟨.short (by decide), .nil, .short (by decide), .nil⟩
  have hparses : Parses .big Tx.decoder tightSlice ⟨⟨1, [], [], 0⟩, Hash256.digest tightSlice⟩ :=
    Tx.parses_of_body .big (TxBody.parses_spelled .big htight)
  have hsome : ∀ slice ∈ [looseSlice, tightSlice], slice ≠ [] := by decide
  have hblock := Block.parses_slices .big default (.two rfl : Form [0xFD, 2, 0] 2)
    (.cons looseSlice_parses (.cons hparses .nil)) hsome
  have hread : (storeAround looseBytes).read Block.decoder = _ := read_storeAround hblock
  rw [length_looseBytes] at hread
  obtain ⟨header, count, slices, hrange, hlength, -, hhash, -, hslices⟩ := read_block_slices hread
  exact ⟨_, _, hread, rfl, header, count, slices, hrange, hlength, hhash, hslices, _, _, rfl, rfl,
    rfl, by decide⟩

end LightPeer
