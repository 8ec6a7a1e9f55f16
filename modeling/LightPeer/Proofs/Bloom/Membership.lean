import LightPeer.Message.Basic
import LightPeer.Proofs.Wire.Parsing

/-!
# Filters have no false negatives

To insert an item sets its bits and clears none, and the items that come after it are inserted
into a filter of the same size, with the same functions.  So all items that were inserted are
found again, and a peer finds them too: it knows the fields of a message, and computes the
same bits from them.

* `testBit_setBit` — what setting one bit does to the others;
* `testBit_insert` — what an item does to the bits of a filter;
* `contains_insert_self`, `contains_insert` — an inserted item is contained, and stays so;
* `admits_of_contains` — a peer that gets the filter agrees.
-/

namespace LightPeer

namespace Bloom

variable {data : Array UInt8}

/-- A mask has one bit. -/
theorem testBit_mask (shift offset : Fin 8) :
    ((1 : UInt8) <<< UInt8.ofNat shift.val).toNat.testBit offset.val = decide (shift = offset) := by
  revert shift offset
  decide

/-- **Setting a bit sets this bit and leaves the others.** -/
theorem testBit_setBit {i : Nat} (hi : i < 8 * data.size) (j : Nat) :
    testBit (setBit data i) j = (testBit data j || decide (i = j)) := by
  have hbyte : i / 8 < data.size := by omega
  have hshift : i % 8 < 8 := Nat.mod_lt _ (by decide)
  have hoffset : j % 8 < 8 := Nat.mod_lt _ (by decide)
  have hmask := testBit_mask ⟨i % 8, hshift⟩ ⟨j % 8, hoffset⟩
  have hfound : data[i / 8]? = some (data[i / 8]) := Array.getElem?_eq_getElem hbyte
  rw [testBit, testBit, setBit, Array.getD_eq_getD_getElem?, Array.getD_eq_getD_getElem?,
    Array.getElem?_modify]
  by_cases hsame : i / 8 = j / 8
  · have hposition : i % 8 = j % 8 ↔ i = j := by omega
    rw [if_pos hsame, ← hsame, hfound]
    simp only [Option.map_some, Option.getD_some, UInt8.toNat_or, Nat.testBit_or, hmask,
      Fin.mk.injEq, hposition]
  · have hother : i ≠ j := fun h => hsame (by rw [h])
    rw [if_neg hsame, decide_eq_false hother, Bool.or_false]

/-- A row of bits is set, and the others are left. -/
theorem testBit_foldl_setBit {is : List Nat} (his : ∀ i ∈ is, i < 8 * data.size) (j : Nat) :
    testBit (is.foldl setBit data) j = (testBit data j || decide (j ∈ is)) := by
  induction is generalizing data with
  | nil => simp
  | cons i is ih =>
    have hrest : ∀ k ∈ is, k < 8 * (setBit data i).size := by
      intro k hk
      rw [size_setBit]
      exact his k (List.mem_cons_of_mem _ hk)
    rw [List.foldl_cons, ih hrest, testBit_setBit (his i List.mem_cons_self), Bool.or_assoc]
    simp [eq_comm]

end Bloom

namespace BloomFilter

variable {f : BloomFilter} {item other : Bytes}

/-- A function leads to a bit within the filter.  One without bytes would have no bit to lead to,
and none is built. -/
theorem bitIndex_lt (f : BloomFilter) (item : Bytes) (function : Nat) :
    f.bitIndex item function < 8 * f.data.size :=
  Nat.mod_lt _ (Nat.mul_pos (by decide) f.one_le_size)

/-- **To insert an item sets its bits and leaves the others.** -/
theorem testBit_insert (f : BloomFilter) (item : Bytes) (j : Nat) :
    Bloom.testBit (f.insert item).data j =
      (Bloom.testBit f.data j || decide (j ∈ f.bitIndices item)) := by
  refine Bloom.testBit_foldl_setBit ?_ j
  intro i hi
  obtain ⟨function, _, rfl⟩ := List.mem_map.mp hi
  exact f.bitIndex_lt item function

@[simp] theorem functions_insert (f : BloomFilter) (item : Bytes) :
    (f.insert item).functions = f.functions :=
  rfl

@[simp] theorem tweak_insert (f : BloomFilter) (item : Bytes) : (f.insert item).tweak = f.tweak :=
  rfl

/-- The bits of an item depend on the size of a filter, and not on what is in it. -/
theorem bitIndices_insert (f : BloomFilter) (item other : Bytes) :
    (f.insert other).bitIndices item = f.bitIndices item := by
  have hcount : (f.insert other).bitCount = f.bitCount := by
    rw [bitCount, bitCount, insert, Bloom.size_foldl_setBit]
  have hindex : (f.insert other).bitIndex item = f.bitIndex item := by
    funext function
    rw [bitIndex, bitIndex, hcount, tweak_insert]
  rw [bitIndices, bitIndices, hindex, functions_insert]

/-- An item may be in a filter if and only if all its bits are set. -/
theorem contains_iff (f : BloomFilter) (item : Bytes) :
    f.contains item = true ↔ ∀ i ∈ f.bitIndices item, Bloom.testBit f.data i = true :=
  List.all_eq_true

/-- An item that was inserted is contained. -/
theorem contains_insert_self (f : BloomFilter) (item : Bytes) :
    (f.insert item).contains item = true := by
  rw [contains_iff, bitIndices_insert]
  intro i hi
  rw [testBit_insert, decide_eq_true hi, Bool.or_true]

/-- What is contained stays contained, for no bit is ever taken back. -/
theorem contains_insert (other : Bytes) (h : f.contains item = true) :
    (f.insert other).contains item = true := by
  rw [contains_iff] at h ⊢
  rw [bitIndices_insert]
  intro i hi
  rw [testBit_insert, h i hi, Bool.true_or]

end BloomFilter

/-- The test of an item as a peer does it, on the fields of a message. -/
def Bloom.Admits (filter : Bytes) (functions tweak : UInt32) (item : Bytes) : Prop :=
  ∀ i < functions.toNat,
    let bit := (murmur3 item (UInt32.ofNat i * 0xFBA4C795 + tweak)).toNat % (8 * filter.length)
    (filter.getD (bit / 8) 0).toNat.testBit (bit % 8) = true

theorem BloomFilter.toNat_functions (f : BloomFilter) :
    (UInt32.ofNat f.functions).toNat = f.functions := by
  refine UInt32.toNat_ofNat_of_lt' (Nat.lt_of_le_of_lt f.functions_le ?_)
  decide

/-- A peer that gets a filter finds in it what it contains. -/
theorem BloomFilter.admits_of_contains {f : BloomFilter} {item : Bytes}
    (h : f.contains item = true) :
    Bloom.Admits f.bytes (UInt32.ofNat f.functions) f.tweak item := by
  intro i hi bit
  rw [f.toNat_functions] at hi
  rw [contains_iff] at h
  have hbit : bit = f.bitIndex item i := rfl
  have hset := h bit (List.mem_map.mpr ⟨i, List.mem_range.mpr hi, hbit.symm⟩)
  rw [Bloom.testBit, Array.getD_eq_getD_getElem?, ← Array.getElem?_toList,
    ← List.getD_eq_getElem?_getD] at hset
  exact hset

/-- Reads the fields of a message that hands over a filter. -/
def FilterLoad.fields : Wire.Decoder (Bytes × UInt32 × UInt32 × UInt8) := do
  let filter ← Wire.Decoder.varBytes
  let functions ← Wire.Decoder.uint32
  let tweak ← Wire.Decoder.uint32
  let flags ← Wire.Decoder.uint8
  return (filter, functions, tweak, flags)

open Wire Wire.Decoder in
/-- The fields of a filter are read from its payload, and nothing is left. -/
theorem FilterLoad.parses_fields (m : FilterLoad) (hsize : m.filter.length < 2 ^ 64) :
    Parses .little fields (Outgoing.filterLoad m).payload
      (m.filter, m.functions, m.tweak, m.update.toByte) := by
  have hpayload : (Outgoing.filterLoad m).payload = (varBytesPieces m.filter).flatten ++
      (Bytes.ofNat .little 4 m.functions.toNat ++ (Bytes.ofNat .little 4 m.tweak.toNat ++
        [m.update.toByte])) := by
    rw [Outgoing.payload, Outgoing.pieces, pieces, List.flatten_append]
    rfl
  rw [hpayload]
  refine (parses_varBytes .little hsize).bind ?_
  refine (parses_uint32 .little m.functions).bind ((parses_uint32 .little m.tweak).bind ?_)
  exact (parses_uint8 .little m.update.toByte).map
    fun flags => (m.filter, m.functions, m.tweak, flags)

end LightPeer
