import LightPeer.Proofs.Message.Writing

/-!
# Messages do not depend on the byte order

A store may be in either byte order when a message is read from it or written to it.  A record whose
fields depend on the order sets it for them.  A list of inventory entries and a block set none, as
their counts and their parts do.

* `Tx.unordered`, `Block.unordered`, ... — no reader of a message or of such a record looks at the
  order in force;
* `messages_order_free` — messages and records, read and written in either order.
-/

namespace LightPeer

open Wire Wire.Decoder

/-- An address sets the orders of its parts itself.  The records below are made of parts that do so,
or set an order for all that is in them. -/
theorem NetAddress.unordered : Unordered NetAddress.decoder :=
  unordered_withOrder .little _

theorem Inventory.unordered : Unordered Inventory.decoder :=
  unordered_withOrder .little _

theorem BlockHeader.unordered : Unordered BlockHeader.decoder :=
  (unordered_withOrder .little _).withConsumed.bind fun _ => unordered_pure _

theorem Tx.unordered : Unordered Tx.decoder :=
  (unordered_withOrder .little _).withConsumed.bind fun _ => unordered_pure _

theorem Block.unordered : Unordered Block.decoder :=
  BlockHeader.unordered.bind fun _ => Tx.unordered.vector.bind fun _ => unordered_pure _

theorem MerkleBlock.unordered : Unordered MerkleBlock.decoder :=
  BlockHeader.unordered.bind fun _ => unordered_withOrder .little _

theorem Version.unordered : Unordered Version.decoder :=
  unordered_withOrder .little _

theorem Ping.unordered : Unordered Ping.decoder :=
  unordered_atEnd.bind fun _ => (unordered_pure _).ite <|
    (unordered_withOrder .little _).bind fun _ => unordered_pure _

theorem Message.inventory_unordered : Unordered inventoryDecoder :=
  Inventory.unordered.vector

/-- **Messages do not depend on the byte order.**  In either order a store gives the same message or
record, or the same reason why there is none, and leaves the cursor at the same place; the same
fields are put into it for a message or a record that is written.  The order of the store is then as
it was, whatever the outcome is: an order that is set for a part of a reading is put back behind it,
even if that part fails or has set another. -/
theorem messages_order_free :
    (OrderFree Version.decoder ∧ OrderFree Ping.decoder ∧ OrderFree Message.inventoryDecoder ∧
      OrderFree Tx.decoder ∧ OrderFree Block.decoder ∧ OrderFree MerkleBlock.decoder ∧
      OrderFree BlockHeader.decoder ∧ OrderFree NetAddress.decoder ∧
      OrderFree Inventory.decoder) ∧
    (∀ m : Outgoing, m.writing.OrderFree m.pieces) ∧
    (∀ a : NetAddress, a.writing.OrderFree a.pieces) ∧
    (∀ i : Inventory, i.writing.OrderFree i.pieces) ∧
    ∀ (α : Type) (order : ByteOrder) (c : Cursor),
      (∀ d : Decoder α, c.read (withOrder order d) = c.inOrder order (Cursor.read d)) ∧
      ∀ step : Cursor → Except Error α × Cursor, (c.inOrder order step).2.order = c.order := by
  refine ⟨⟨Version.unordered.orderFree, Ping.unordered.orderFree,
    Message.inventory_unordered.orderFree, Tx.unordered.orderFree, Block.unordered.orderFree,
    MerkleBlock.unordered.orderFree, BlockHeader.unordered.orderFree,
    NetAddress.unordered.orderFree, Inventory.unordered.orderFree⟩,
    fun m => m.puts_writing.orderFree, fun a => a.puts_writing.orderFree,
    fun i => i.puts_writing.orderFree, ?_⟩
  intro α order c
  exact ⟨fun d => Cursor.read_withOrder order d c, fun step => rfl⟩

end LightPeer
