import LightPeer.Message.Writing
import LightPeer.Proofs.Wire.Order

/-!
# The fields that records and messages put into a store

A record is put into a store part by part, some of them in an order of their own.  What arrives
there are the fields of the record, one after another: for the parts of a transaction those of the
order in force, for all others the same in every order.
-/

namespace LightPeer

open Wire Wire.Writing

/-- An address puts the fields that it is written as, in whatever order.  So do the records below;
an input or an output on its own puts them in the order in force. -/
theorem NetAddress.puts_writing (a : NetAddress) : a.writing.Puts fun _ => a.pieces :=
  (((puts_unsigned 8 _).append (puts_bytes _)).append
    ((puts_unsigned 2 _).inOrder .big)).inOrder .little

theorem Inventory.puts_writing (i : Inventory) : i.writing.Puts fun _ => i.pieces :=
  ((puts_unsigned 4 _).append (puts_bytes _)).inOrder .little

theorem OutPoint.puts_writing (o : OutPoint) : o.writing.Puts fun order => o.pieces order :=
  (puts_bytes _).append (puts_unsigned 4 _)

theorem TxIn.puts_writing (i : TxIn) : i.writing.Puts fun order => i.pieces order :=
  (i.previous.puts_writing.append (puts_varBytes _)).append (puts_unsigned 4 _)

theorem TxOut.puts_writing (o : TxOut) : o.writing.Puts fun order => o.pieces order :=
  (puts_unsigned 8 _).append (puts_varBytes _)

theorem TxBody.puts_writing (t : TxBody) : t.writing.Puts fun _ => t.pieces :=
  ((((puts_unsigned 4 _).append (puts_vector TxIn.puts_writing t.inputs)).append
    (puts_vector TxOut.puts_writing t.outputs)).append (puts_unsigned 4 _)).inOrder .little

theorem Version.puts_writing (v : Version) : v.writing.Puts fun _ => v.pieces :=
  (((((((((puts_unsigned 4 _).append (puts_unsigned 8 _)).append (puts_unsigned 8 _)).append
    v.receiver.puts_writing).append v.sender.puts_writing).append (puts_unsigned 8 _)).append
    (puts_varBytes _)).append (puts_unsigned 4 _)).append
    (Puts.ite (puts_bytes _) puts_nothing)).inOrder .little

theorem Ping.puts_writing (p : Ping) : p.writing.Puts fun _ => p.pieces := by
  obtain ⟨nonce⟩ := p
  cases nonce with
  | none => exact puts_nothing
  | some nonce => exact (puts_unsigned 8 _).inOrder .little

theorem Pong.puts_writing (p : Pong) : p.writing.Puts fun _ => p.pieces :=
  (puts_unsigned 8 _).inOrder .little

theorem FilterLoad.puts_writing (m : FilterLoad) : m.writing.Puts fun _ => m.pieces :=
  ((puts_varBytes _).append (((puts_unsigned 4 _).append (puts_unsigned 4 _)).append
    (puts_bytes _))).inOrder .little

/-- **A message puts its fields into a store, in every order.** -/
theorem Outgoing.puts_writing (m : Outgoing) : m.writing.Puts fun _ => m.pieces := by
  cases m with
  | version v => exact v.puts_writing
  | verack => exact puts_nothing
  | ping p => exact p.puts_writing
  | pong p => exact p.puts_writing
  | getData entries => exact puts_vector Inventory.puts_writing entries
  | filterLoad m => exact m.puts_writing
  | tx t => exact t.puts_writing

/-- **A store is a list of bytes to those who write to it.**  What several writings have put into a
new store are the bytes of each of them in turn, in the order that those before it have left in
force, however long the store was and wherever it grew.  In any store whose cursor lies within its
data a writing puts its bytes where the cursor stands; all others are kept, and those that are added
behind are zeros.  Nothing is refused that ends within half of the longest store.  To write is to
put one field after another into the store, and a field keeps the order as well.  The fields of
integers, of counts, of byte strings, of lists and of records are those that they are written as. -/
theorem writings_refine_bytes :
    (∀ (capacity : Nat) (ws : List Writing),
        (∀ after, (row ws).run (.withCapacity capacity) = .ok after →
          after.written = (encodings ws .little).flatten) ∧
        (2 * (encodings ws .little).flatten.length < Cursor.sizeLimit →
          ∃ after, (row ws).run (.withCapacity capacity) = .ok after)) ∧
      (∀ (c : Cursor) (w : Writing), c.position ≤ c.data.length →
        (∀ after, w.run c = .ok after →
          c.Wrote (w.encoding c.order) after ∧ after.order = w.orderAfter c.order) ∧
        (2 * (c.position + (w.encoding c.order).length) < Cursor.sizeLimit →
          ∃ after, w.run c = .ok after)) ∧
      (∀ (c : Cursor) (w : Writing), w.run c = (c.putAll (w.fields c.order)).map fun next =>
        { next with order := w.orderAfter c.order }) ∧
      (∀ (c after : Cursor) (bs : Bytes), c.position ≤ c.data.length → c.put bs = .ok after →
        c.Wrote bs after ∧ after.order = c.order) ∧
      (∀ width n, (unsigned width n).Puts fun order => [Bytes.ofNat order width n]) ∧
      (∀ n, (compactSize n).Puts fun _ => CompactSize.pieces n) ∧
      (∀ bs, (varBytes bs).Puts fun _ => varBytesPieces bs) ∧
      (∀ width text, (fixedString width text).Puts fun _ => [fixedStringBytes width text]) ∧
      (∀ (α : Type) (item : α → Writing) (pieces : ByteOrder → α → List Bytes),
        (∀ a, (item a).Puts fun order => pieces order a) →
          ∀ items, (vector item items).Puts fun order => vectorPieces (pieces order) items) ∧
      (∀ o : OutPoint, o.writing.Puts fun order => o.pieces order) ∧
      (∀ i : TxIn, i.writing.Puts fun order => i.pieces order) ∧
      (∀ o : TxOut, o.writing.Puts fun order => o.pieces order) ∧
      (∀ a : NetAddress, a.writing.Puts fun _ => a.pieces) ∧
      (∀ i : Inventory, i.writing.Puts fun _ => i.pieces) ∧
      ∀ m : Outgoing, m.writing.Puts fun _ => m.pieces := by
  refine ⟨fun capacity ws => ⟨fun after h => written_row h, exists_row⟩,
    fun c w hinside => ⟨fun after h => run_wrote hinside h, exists_run hinside⟩,
    fun c w => w.run_eq c, fun c after bs hinside h => Cursor.put_wrote hinside h,
    puts_unsigned, puts_compactSize, puts_varBytes, fun width text => puts_bytes _,
    fun α item pieces h => puts_vector h,
    OutPoint.puts_writing, TxIn.puts_writing, TxOut.puts_writing, NetAddress.puts_writing,
    Inventory.puts_writing, Outgoing.puts_writing⟩

/-- A store of two bytes grows twice and is in the other order then.  In the middle of a store of
four bytes the first of them is kept, and a name of an output is written in the order in force. -/
theorem writings_refine_bytes_grown :
    (∃ after, (row [.bytes [7], .setOrder .big, .unsigned 2 0x0102, .compactSize 0x0304]).run
        (.withCapacity 2) = .ok after ∧ after.written = [7, 1, 2, 0xFD, 4, 3]) ∧
      (∃ after, (.unsigned 2 0x0102 ++ .setOrder .little : Writing).run ⟨[9, 9, 9, 9], 1, .big⟩ =
        .ok after ∧ Cursor.Wrote ⟨[9, 9, 9, 9], 1, .big⟩ [1, 2] after ∧ after.order = .little) ∧
      (∃ after, Cursor.put [5, 6, 7] ⟨[9, 9], 1, .big⟩ = .ok after ∧
        Cursor.Wrote ⟨[9, 9], 1, .big⟩ [5, 6, 7] after ∧ after.order = .big) ∧
      (vector OutPoint.writing [⟨Hash256.zero, 1⟩]).Puts fun order =>
        vectorPieces (OutPoint.pieces order) [⟨Hash256.zero, 1⟩] := by
  obtain ⟨hnew, hstore, -, hput, -, -, -, -, hvector, -⟩ := writings_refine_bytes
  obtain ⟨hwritten, hfits⟩ := hnew 2
    [.bytes [7], .setOrder .big, .unsigned 2 0x0102, .compactSize 0x0304]
  obtain ⟨hwrote, hgrows⟩ := hstore ⟨[9, 9, 9, 9], 1, .big⟩
    (.unsigned 2 0x0102 ++ .setOrder .little) (by decide)
  obtain ⟨after, hrow⟩ := hfits (by decide)
  obtain ⟨after', hrun⟩ := hgrows (by decide)
  refine ⟨⟨after, hrow, hwritten after hrow⟩, ⟨after', hrun, hwrote after' hrun⟩,
    ⟨_, rfl, hput ⟨[9, 9], 1, .big⟩ _ [5, 6, 7] (by decide) rfl⟩,
    hvector OutPoint _ _ OutPoint.puts_writing _⟩

end LightPeer
