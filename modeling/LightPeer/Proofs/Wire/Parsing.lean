import Mathlib.Data.List.Forall2
import LightPeer.Record.Hash

/-!
# What decoders read

A decoder reads a value from bytes if it does so wherever they stand and whatever comes
behind them.  `Parses` says this, and decoders that are put together parse bytes that are
put together.

* `Parses.bind` — one decoder after another;
* `Form.parses` — a count, in its shortest form or in a longer one;
* `parses_counted`, `parses_slices` — byte strings and lists behind any form of their length,
  which is no larger than the number of bytes behind it.
-/

namespace LightPeer.Wire

/-- From `bs`, with whatever comes behind it, `d` reads `a` and stops there. -/
def Decoder.Parses {α : Type} (order : ByteOrder) (d : Decoder α) (bs : Bytes) (a : α) : Prop :=
  ∀ position rest, d ⟨order, false⟩ ⟨position, bs ++ rest⟩ = .ok a ⟨position + bs.length, rest⟩

namespace Decoder

variable {α β : Type} {order : ByteOrder} {d : Decoder α} {f : α → Decoder β} {bs more : Bytes}
  {a : α} {b : β}

/-- What is parsed from some bytes is read from them when they stand alone. -/
theorem Parses.decode_eq (h : Parses .little d bs a) : d.decode bs = .ok a := by
  have hd := h 0 []
  rw [List.append_nil] at hd
  rw [decode, run, hd]
  rfl

theorem parses_pure (order : ByteOrder) (a : α) : Parses order (pure a) [] a :=
  fun _ _ => rfl

/-- One decoder after another reads one part after another. -/
theorem Parses.bind (h : Parses order d bs a) (h' : Parses order (f a) more b) :
    Parses order (d >>= f) (bs ++ more) b := by
  intro position rest
  show andThen d f _ _ = _
  rw [andThen, List.append_assoc, h]
  simp only [h' (position + bs.length) rest, List.length_append, Nat.add_assoc]

/-- What comes behind a decoder may read nothing, and then its bytes are those of the first. -/
theorem Parses.bind_nil (h : Parses order d bs a) (h' : Parses order (f a) [] b) :
    Parses order (d >>= f) bs b := by
  have hbind := h.bind h'
  rw [List.append_nil] at hbind
  exact hbind

/-- What is made of a value is made of it wherever it has been read. -/
theorem Parses.map (h : Parses order d bs a) (g : α → β) :
    Parses order (d >>= fun x => pure (g x)) bs (g a) :=
  h.bind_nil (parses_pure order (g a))

/-- A reading that sets its own order parses what it parses in that order. -/
theorem Parses.withOrder {order' : ByteOrder} (h : Parses order d bs a) :
    Parses order' (Decoder.withOrder order d) bs a :=
  h

/-- The bytes that a decoder goes over are those that it reads. -/
theorem Parses.withConsumed (h : Parses order d bs a) :
    Parses order (Decoder.withConsumed d) bs (a, bs) := by
  intro position rest
  rw [Decoder.withConsumed, h]
  simp only [Nat.add_sub_cancel_left, List.take_left]

/-- A decoder that asks whether bytes are left learns that its own are. -/
theorem Parses.behind_atEnd {f : Bool → Decoder α} (h : Parses order (f false) bs a)
    (hbs : bs ≠ []) : Parses order (atEnd >>= f) bs a := by
  intro position rest
  have hleft : (bs ++ rest).isEmpty = false :=
    List.isEmpty_eq_false_iff.mpr (List.append_ne_nil_of_left_ne_nil hbs rest)
  show andThen atEnd f _ _ = _
  rw [andThen, atEnd, hleft]
  exact h position rest

/-- Bytes are read as they are, if their number is right. -/
theorem parses_exactly (order : ByteOrder) {n : Nat} (hn : bs.length = n) :
    Parses order (exactly n) bs ⟨bs, hn⟩ := by
  subst hn
  intro position rest
  have hsize : Bytes.hasAtLeast bs.length (bs ++ rest) := by
    rw [Bytes.hasAtLeast_iff, List.length_append]
    omega
  simp only [exactly, hsize, dif_pos, Bool.and_false, Bool.false_eq_true, if_false,
    List.take_left, List.drop_left]

/-- Any bytes are read as they are, if so many are asked for. -/
theorem parses_take (order : ByteOrder) (bs : Bytes) : Parses order (take bs.length) bs bs :=
  (parses_exactly order rfl).map Subtype.val

/-- A number is read from its bytes in the order in force. -/
theorem parses_unsigned (order : ByteOrder) (bs : Bytes) :
    Parses order (unsigned bs.length) bs (Bytes.toNat order bs) := by
  intro position rest
  rw [unsigned, parses_take order bs]

/-- A number that fits into its field is read from it. -/
theorem parses_unsigned_ofNat (order : ByteOrder) {width n : Nat} (hn : n < 256 ^ width) :
    Parses order (unsigned width) (Bytes.ofNat order width n) n := by
  have h := parses_unsigned order (Bytes.ofNat order width n)
  rw [Bytes.length_ofNat, Bytes.toNat_ofNat, Nat.mod_eq_of_lt hn] at h
  exact h

/-- A single byte has no order. -/
theorem parses_uint8 (order : ByteOrder) (b : UInt8) : Parses order uint8 [b] b := by
  have h := (parses_unsigned order [b]).map UInt8.ofNat
  have hb : Bytes.toNat order [b] = b.toNat := by cases order <;> rfl
  rw [hb, UInt8.ofNat_toNat] at h
  exact h

theorem parses_uint16 (order : ByteOrder) (n : UInt16) :
    Parses order uint16 (Bytes.ofNat order 2 n.toNat) n := by
  have h := (parses_unsigned_ofNat order (show n.toNat < 256 ^ 2 from n.toNat_lt)).map UInt16.ofNat
  rw [UInt16.ofNat_toNat] at h
  exact h

/-- A number of 32 bits that was written is read. -/
theorem parses_uint32 (order : ByteOrder) (n : UInt32) :
    Parses order uint32 (Bytes.ofNat order 4 n.toNat) n := by
  have h := (parses_unsigned_ofNat order (show n.toNat < 256 ^ 4 from n.toNat_lt)).map UInt32.ofNat
  rw [UInt32.ofNat_toNat] at h
  exact h

theorem parses_uint64 (order : ByteOrder) (n : UInt64) :
    Parses order uint64 (Bytes.ofNat order 8 n.toNat) n := by
  have h := (parses_unsigned_ofNat order (show n.toNat < 256 ^ 8 from n.toNat_lt)).map UInt64.ofNat
  rw [UInt64.ofNat_toNat] at h
  exact h

/-- A number with a sign is read as the same bits without one. -/
theorem parses_int32 (order : ByteOrder) (n : Int32) :
    Parses order int32 (int32Bytes order n) n :=
  (parses_uint32 order n.toUInt32).map UInt32.toInt32

theorem parses_int64 (order : ByteOrder) (n : Int64) :
    Parses order int64 (int64Bytes order n) n :=
  (parses_uint64 order n.toUInt64).map UInt64.toInt64

/-- A truth value is a byte that is one or zero. -/
theorem parses_bool (order : ByteOrder) (b : Bool) :
    Parses order bool [if b then 1 else 0] b := by
  have h := (parses_uint8 order (if b then 1 else 0)).map fun n => decide (n ≠ 0)
  have hb : decide ((if b then 1 else 0 : UInt8) ≠ 0) = b := by cases b <;> rfl
  rw [hb] at h
  exact h

/-- A hash is read from its bytes. -/
theorem parses_hash (order : ByteOrder) (h : Hash256) : Parses order hashDecoder h.bytes h :=
  (parses_exactly order h.length_bytes).map fun bs => Hash256.mk bs.val bs.property

end Decoder

namespace CompactSize

open Decoder

variable {bs : Bytes} {n : Nat}

/-- The forms of a number: a single byte, or a mark and as many bytes as the mark announces,
least significant first.  A number has a form of every width that it fits into. -/
inductive Form : Bytes → Nat → Prop
  | short {first : UInt8} (hfirst : first ≤ 0xFC) : Form [first] first.toNat
  | two {digits : Bytes} (hdigits : digits.length = 2) :
      Form (0xFD :: digits) (Bytes.toNat .little digits)
  | four {digits : Bytes} (hdigits : digits.length = 4) :
      Form (0xFE :: digits) (Bytes.toNat .little digits)
  | eight {digits : Bytes} (hdigits : digits.length = 8) :
      Form (0xFF :: digits) (Bytes.toNat .little digits)

/-- The shortest form of a number is one of its forms. -/
theorem form_encode (n : UInt64) : Form (encode n) n.toNat := by
  have hfield {width : Nat} (hn : n.toNat < 256 ^ width) :
      Bytes.toNat .little (Bytes.ofNat .little width n.toNat) = n.toNat := by
    rw [Bytes.toNat_ofNat, Nat.mod_eq_of_lt hn]
  rw [encode, pieces]
  split
  · next hn =>
    have hn : n.toNat ≤ 0xFC := UInt64.le_iff_toNat_le.mp hn
    have hfirst : (UInt8.ofNat n.toNat).toNat = n.toNat :=
      UInt8.toNat_ofNat_of_lt' (show _ < 256 by omega)
    have hle : (UInt8.ofNat n.toNat).toNat ≤ 0xFC := by omega
    have hform := Form.short (UInt8.le_iff_toNat_le.mpr hle)
    rw [hfirst] at hform
    exact hform
  · split
    · next hn =>
      have hn : n.toNat ≤ 0xFFFF := UInt64.le_iff_toNat_le.mp hn
      have hform := Form.two (Bytes.length_ofNat .little 2 n.toNat)
      rw [hfield (by omega)] at hform
      exact hform
    · split
      · next hn =>
        have hn : n.toNat ≤ 0xFFFFFFFF := UInt64.le_iff_toNat_le.mp hn
        have hform := Form.four (Bytes.length_ofNat .little 4 n.toNat)
        rw [hfield (by omega)] at hform
        exact hform
      · have hform := Form.eight (Bytes.length_ofNat .little 8 n.toNat)
        rw [hfield n.toNat_lt] at hform
        exact hform

/-- What a count is, once its first byte is known. -/
def behind (first : UInt8) : Decoder UInt64 :=
  if first = 0xFD then do return UInt64.ofNat (← unsigned 2)
  else if first = 0xFE then do return UInt64.ofNat (← unsigned 4)
  else if first = 0xFF then uint64
  else return first.toUInt64

/-- **A count is read from any of its forms.** -/
theorem Form.parses (order : ByteOrder) (h : Form bs n) :
    Parses order decoder bs (UInt64.ofNat n) := by
  have hbehind {first : UInt8} {digits : Bytes} {v : UInt64}
      (hdigits : Parses .little (behind first) digits v) :
      Parses order decoder (first :: digits) v :=
    (parses_uint8 order first).bind (Parses.withOrder hdigits)
  have hwide {width : Nat} {digits : Bytes} (hdigits : digits.length = width) :
      Parses .little (do return UInt64.ofNat (← unsigned width)) digits
        (UInt64.ofNat (Bytes.toNat .little digits)) := by
    subst hdigits
    exact (parses_unsigned .little digits).map UInt64.ofNat
  cases h with
  | @short first hfirst =>
    refine hbehind ?_
    rw [behind, if_neg (by grind), if_neg (by grind), if_neg (by grind), UInt64.ofNat_uInt8ToNat]
    exact parses_pure .little first.toUInt64
  | two hdigits => exact hbehind (hwide hdigits)
  | four hdigits => exact hbehind (hwide hdigits)
  | eight hdigits => exact hbehind (hwide hdigits)

/-- Counts have 64 bits, and no form has room for more. -/
theorem Form.lt (h : Form bs n) : n < 2 ^ 64 := by
  have hdigits (digits : Bytes) (hlength : digits.length ≤ 8) :
      Bytes.toNat .little digits < 2 ^ 64 :=
    Nat.lt_of_lt_of_le (Bytes.toNat_lt .little digits)
      (Nat.pow_le_pow_right (by decide : 0 < 256) hlength)
  cases h with
  | @short first _ => exact Nat.lt_trans first.toNat_lt (by decide)
  | two h => exact hdigits _ (by omega)
  | four h => exact hdigits _ (by omega)
  | eight h => exact hdigits _ (by omega)

/-- A number that has a form has at most 64 bits. -/
theorem Form.toNat_ofNat (h : Form bs n) : (UInt64.ofNat n).toNat = n :=
  UInt64.toNat_ofNat_of_lt' h.lt

/-- A number of at most 64 bits is written in one of its forms. -/
theorem form_encode_ofNat (hn : n < 2 ^ 64) : Form (encode (UInt64.ofNat n)) n := by
  have h := form_encode (UInt64.ofNat n)
  rw [UInt64.toNat_ofNat_of_lt' hn] at h
  exact h

end CompactSize

namespace Decoder

variable {α : Type} {order : ByteOrder} {d : Decoder α} {bs count : Bytes} {a : α}

/-- A count is read from its shortest form, whatever the order that is set outside. -/
theorem parses_compactSize (order : ByteOrder) (n : UInt64) :
    Parses order CompactSize.decoder (CompactSize.encode n) n := by
  have h := (CompactSize.form_encode n).parses order
  rw [UInt64.ofNat_toNat] at h
  exact h

/-- A length is read, if as many bytes are behind it. -/
theorem length_eq {n : Nat} (hcount : CompactSize.Form count n) (position : Nat) {rest : Bytes}
    (hrest : n ≤ rest.length) :
    length ⟨order, false⟩ ⟨position, count ++ rest⟩ = .ok n ⟨position + count.length, rest⟩ := by
  rw [length, hcount.parses order]
  simp only [hcount.toNat_ofNat, Bytes.hasAtLeast_iff.mpr hrest, if_true]

/-- What is read behind a length has at least that many bytes. -/
theorem Parses.behind {n : Nat} {f : Nat → Decoder α} (h : Parses order (f n) bs a)
    (hcount : CompactSize.Form count n) (hbs : n ≤ bs.length) :
    Parses order (length >>= f) (count ++ bs) a := by
  intro position rest
  show andThen length f _ _ = _
  rw [andThen, List.append_assoc, length_eq hcount position (by rw [List.length_append]; omega)]
  simp only [h _ rest, List.length_append, Nat.add_assoc]

/-- A byte string is read from behind any form of its length. -/
theorem parses_counted (order : ByteOrder) (hcount : CompactSize.Form count bs.length) :
    Parses order varBytes (count ++ bs) bs :=
  (parses_take order bs).behind hcount (Nat.le_refl _)

/-- A byte string stands behind its length, and the length is in its shortest form. -/
theorem flatten_varBytesPieces (bs : Bytes) :
    (varBytesPieces bs).flatten = CompactSize.encode (UInt64.ofNat bs.length) ++ bs := by
  rw [varBytesPieces, List.flatten_append, List.flatten_singleton]
  rfl

/-- A byte string that was written is read, unless it is longer than can be counted. -/
theorem parses_varBytes (order : ByteOrder) (hbs : bs.length < 2 ^ 64) :
    Parses order varBytes (varBytesPieces bs).flatten bs := by
  rw [flatten_varBytesPieces]
  exact parses_counted order (CompactSize.form_encode_ofNat hbs)

/-- Items that are read from their slices are read one after another from all of them. -/
theorem repeatOnto_eq {slices : List Bytes} {items : List α}
    (hitems : List.Forall₂ (Parses order d) slices items) (acc : List α)
    (position : Nat) (rest : Bytes) :
    repeatOnto d items.length acc ⟨order, false⟩ ⟨position, slices.flatten ++ rest⟩ =
      .ok (acc.reverse ++ items) ⟨position + slices.flatten.length, rest⟩ := by
  induction hitems generalizing acc position with
  | nil => simp [repeatOnto]
  | @cons slice a slices items ha _ ih =>
    rw [List.length_cons, repeatOnto, List.flatten_cons, List.append_assoc, ha]
    simp only [ih, List.reverse_cons, List.append_assoc, List.singleton_append,
      List.length_append, Nat.add_assoc]

/-- Slices of a byte at least are no more than their bytes. -/
theorem length_le_length_flatten {slices : List Bytes} (hsize : ∀ slice ∈ slices, slice ≠ []) :
    slices.length ≤ slices.flatten.length := by
  induction slices with
  | nil => exact Nat.zero_le _
  | cons slice slices ih =>
    have hfirst := List.length_pos_iff.mpr (hsize slice List.mem_cons_self)
    have hrest := ih fun other hother => hsize other (List.mem_cons_of_mem slice hother)
    rw [List.flatten_cons, List.length_append, List.length_cons]
    omega

/-- **Items that take a byte at least are read as a list**, behind any form of their number. -/
theorem parses_slices (order : ByteOrder) {slices : List Bytes} {items : List α}
    (hcount : CompactSize.Form count items.length)
    (hitems : List.Forall₂ (Parses order d) slices items)
    (hsize : ∀ slice ∈ slices, slice ≠ []) :
    Parses order (vector d) (count ++ slices.flatten) items := by
  have hlist : Parses order (Decoder.replicate items.length d) slices.flatten items :=
    repeatOnto_eq hitems []
  have hbytes := length_le_length_flatten hsize
  rw [hitems.length_eq] at hbytes
  exact hlist.behind hcount hbytes

/-- Items stand one behind the other, behind their number in its shortest form. -/
theorem flatten_vectorPieces (pieces : α → List Bytes) (items : List α) :
    (vectorPieces pieces items).flatten = CompactSize.encode (UInt64.ofNat items.length) ++
      (items.map fun a => (pieces a).flatten).flatten := by
  rw [vectorPieces, List.flatten_append, List.flatMap_def, List.flatten_flatten, List.map_map]
  rfl

/-- **A list that was written is read**, if each of its items is and none is without bytes.  The
number of items is checked against the bytes that are left, and it passes as each item takes a
byte. -/
theorem parses_vector (order : ByteOrder) {pieces : α → List Bytes} {items : List α}
    (hitems : ∀ a ∈ items, Parses order d (pieces a).flatten a)
    (hsize : ∀ a ∈ items, 1 ≤ (pieces a).flatten.length) (hcount : items.length < 2 ^ 64) :
    Parses order (vector d) (vectorPieces pieces items).flatten items := by
  have hslices : List.Forall₂ (Parses order d) (items.map fun a => (pieces a).flatten) items :=
    List.forall₂_map_left_iff.mpr (List.forall₂_same.mpr hitems)
  have hsome : ∀ slice ∈ items.map fun a => (pieces a).flatten, slice ≠ [] := by
    intro slice hslice
    obtain ⟨a, ha, rfl⟩ := List.mem_map.mp hslice
    exact List.length_pos_iff.mp (hsize a ha)
  rw [flatten_vectorPieces]
  exact parses_slices order (CompactSize.form_encode_ofNat hcount) hslices hsome

end Decoder

end LightPeer.Wire
