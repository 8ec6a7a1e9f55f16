import LightPeer.Proofs.Wire.Growth
import LightPeer.Proofs.Wire.Store

/-!
# Which parts depend on the byte order

The byte order in force matters to integers of two bytes and more, and to nothing else.  A count has
an order of its own, and so has every part that sets one.  What is put together of such parts does
not depend on the order in force.

* `Unordered` — a decoder that does not look at the order; `Unordered.bind`, `Unordered.vector`
  put such decoders together;
* `Unordered.orderFree` — on a store it answers the same in either order, and keeps the order;
* `Puts` — the fields that a writing puts into a store, for each order;
* `Puts.orderFree` — if they are the same for each, then so is what is put there.
-/

namespace LightPeer.Wire

namespace Decoder

variable {α β : Type} {d d' : Decoder α} {f : α → Decoder β}

/-- What is read does not depend on the byte order in force. -/
def Unordered (d : Decoder α) : Prop :=
  ∀ order order' pastEnd input, d ⟨order, pastEnd⟩ input = d ⟨order', pastEnd⟩ input

/-- **A reading that sets its own order does not depend on the one in force.** -/
theorem unordered_withOrder (order : ByteOrder) (d : Decoder α) :
    Unordered (Decoder.withOrder order d) :=
  fun _ _ _ _ => rfl

theorem unordered_pure (a : α) : Unordered (pure a) :=
  fun _ _ _ _ => rfl

theorem unordered_atEnd : Unordered atEnd :=
  fun _ _ _ _ => rfl

/-- Bytes are the same in every order. -/
theorem unordered_take (n : Nat) : Unordered (take n) :=
  fun _ _ _ _ => rfl

/-- Two readings that do not depend on the order do not depend on it one behind the other. -/
theorem Unordered.bind (h : d.Unordered) (h' : ∀ a, (f a).Unordered) : Unordered (d >>= f) := by
  intro order order' pastEnd input
  show andThen d f _ input = andThen d f _ input
  rw [andThen, andThen, h order order']
  cases d ⟨order', pastEnd⟩ input with
  | error cause next => rfl
  | ok a next => exact h' a order order' pastEnd next

/-- Nor does a choice between two. -/
theorem Unordered.ite {p : Prop} [Decidable p] (h : d.Unordered) (h' : d'.Unordered) :
    Unordered (if p then d else d') := by
  split
  · exact h
  · exact h'

/-- Nor do the bytes that were gone over, which are those of the store in any order. -/
theorem Unordered.withConsumed (h : d.Unordered) : Unordered (Decoder.withConsumed d) := by
  intro order order' pastEnd input
  rw [Decoder.withConsumed, Decoder.withConsumed, h order order']

/-- A single byte has no order. -/
theorem unordered_uint8 : Unordered uint8 := by
  have hbyte : Unordered (unsigned 1) := by
    intro order order' pastEnd input
    have htake := reads_take order' 1 pastEnd input
    rw [unsigned, unsigned, unordered_take 1 order order']
    generalize take 1 ⟨order', pastEnd⟩ input = outcome at htake ⊢
    cases htake with
    | error hpass hcause => rfl
    | @ok _ bs next hpass ha =>
      obtain ⟨b, rfl⟩ := List.length_eq_one_iff.mp ha.2
      cases order <;> cases order' <;> rfl
  exact hbyte.bind fun n => unordered_pure (UInt8.ofNat n)

/-- A count has an order of its own, which is set for it and then put back. -/
theorem unordered_compactSize : Unordered CompactSize.decoder :=
  unordered_uint8.bind fun _ => unordered_withOrder .little _

/-- A count sets its own order. -/
theorem unordered_length : Unordered length := by
  intro order order' pastEnd input
  rw [length, length, unordered_compactSize order order']

/-- Nor do any number of items.  By induction on their number. -/
theorem Unordered.repeatOnto (h : d.Unordered) (count : Nat) (acc : List α) :
    Unordered (Decoder.repeatOnto d count acc) := by
  intro order order' pastEnd input
  induction count generalizing acc input with
  | zero => rfl
  | succ count ih =>
    rw [Decoder.repeatOnto, Decoder.repeatOnto, h order order']
    cases d ⟨order', pastEnd⟩ input with
    | error cause next => rfl
    | ok a next => exact ih (a :: acc) next

/-- A list does not depend on the order if its items do not. -/
theorem Unordered.vector (h : d.Unordered) : Unordered (Decoder.vector d) :=
  unordered_length.bind fun count => h.repeatOnto count []

/-- In another byte order a store answers the same and the cursor goes to the same place.  The order
is kept, whatever the answer is. -/
def OrderFree (d : Decoder α) : Prop :=
  ∀ (c : Cursor) (order : ByteOrder),
    Cursor.read d { c with order } = ((c.read d).1, { (c.read d).2 with order })

/-- What does not depend on the order reads the same from a store in any order, and leaves the order
as it was. -/
theorem Unordered.orderFree (h : d.Unordered) : d.OrderFree := by
  intro c order
  have hsame : d ({ c with order } : Cursor).context ({ c with order } : Cursor).input =
      d c.context c.input :=
    h order c.order _ c.input
  rw [Cursor.read, hsame]
  rfl

end Decoder

namespace Writing

variable {w v : Writing} {pieces pieces' : ByteOrder → List Bytes}

/-- The fields of a writing are these, for each order that it begins in, and that order is in force
behind it again. -/
structure Puts (w : Writing) (pieces : ByteOrder → List Bytes) : Prop where
  fields_eq : ∀ order, w.fields order = pieces order
  orderAfter_eq : ∀ order, w.orderAfter order = order

theorem puts_nothing : Puts nothing fun _ => [] :=
  ⟨fun _ => rfl, fun _ => rfl⟩

/-- Bytes are put into a store as they are. -/
theorem puts_bytes (bs : Bytes) : Puts (bytes bs) fun _ => [bs] :=
  ⟨fun _ => rfl, fun _ => rfl⟩

/-- A number is the one thing whose bytes depend on the order in force. -/
theorem puts_unsigned (width n : Nat) :
    Puts (unsigned width n) fun order => [Bytes.ofNat order width n] :=
  ⟨fun _ => rfl, fun _ => rfl⟩

/-- One writing behind another puts the fields of both, and the order that the first has left in
force is the one it began with. -/
theorem Puts.append (h : w.Puts pieces) (h' : v.Puts pieces') :
    Puts (w ++ v) fun order => pieces order ++ pieces' order where
  fields_eq order := by
    show w.fields order ++ v.fields (w.orderAfter order) = _
    rw [h.orderAfter_eq, h.fields_eq, h'.fields_eq]
  orderAfter_eq order := by
    show v.orderAfter (w.orderAfter order) = order
    rw [h.orderAfter_eq, h'.orderAfter_eq]

/-- A part in an order of its own puts the fields of this order. -/
theorem Puts.inOrder (h : w.Puts pieces) (order : ByteOrder) :
    Puts (.inOrder order w) fun _ => pieces order :=
  ⟨fun _ => h.fields_eq order, fun _ => rfl⟩

theorem Puts.ite {p : Prop} [Decidable p] (h : w.Puts pieces) (h' : v.Puts pieces') :
    Puts (if p then w else v) fun order => if p then pieces order else pieces' order := by
  split
  · exact h
  · exact h'

/-- A count is written in its shortest form, in every order. -/
theorem puts_compactSize (n : UInt64) : Puts (compactSize n) fun _ => CompactSize.pieces n :=
  (Puts.ite (puts_unsigned 1 n.toNat) <|
    Puts.ite ((puts_bytes [0xFD]).append (puts_unsigned 2 n.toNat)) <|
    Puts.ite ((puts_bytes [0xFE]).append (puts_unsigned 4 n.toNat)) <|
    (puts_bytes [0xFF]).append (puts_unsigned 8 n.toNat)).inOrder .little

theorem puts_varBytes (bs : Bytes) : Puts (varBytes bs) fun _ => varBytesPieces bs :=
  (puts_compactSize _).append (puts_bytes bs)

/-- Items are written one after another behind their number, all of them in the same order. -/
theorem puts_vector {α : Type} {item : α → Writing} {pieces : ByteOrder → α → List Bytes}
    (h : ∀ a, (item a).Puts fun order => pieces order a) (items : List α) :
    Puts (vector item items) fun order => vectorPieces (pieces order) items := by
  have hrow : Puts (row (items.map item)) fun order => items.flatMap (pieces order) := by
    induction items with
    | nil => exact puts_nothing
    | cons a items ih => exact (h a).append ih
  exact (puts_compactSize _).append hrow

/-- In every byte order these fields are put into the store, and the order is kept. -/
structure OrderFree (w : Writing) (pieces : List Bytes) : Prop where
  run_eq : ∀ c : Cursor, w.run c = c.putAll pieces
  run_inOrder : ∀ (c : Cursor) (order : ByteOrder),
    w.run { c with order } = (w.run c).map fun next => { next with order }

/-- If the fields are the same in every order, so is what is put into the store. -/
theorem Puts.orderFree {pieces : List Bytes} (h : w.Puts fun _ => pieces) :
    w.OrderFree pieces := by
  have hrun (c : Cursor) : w.run c = c.putAll pieces := by
    rw [run_eq, h.fields_eq, h.orderAfter_eq]
    exact (Cursor.putAll_inOrder pieces c c.order).symm
  refine ⟨hrun, ?_⟩
  intro c order
  rw [hrun, hrun]
  exact Cursor.putAll_inOrder pieces c order

end Writing

end LightPeer.Wire
