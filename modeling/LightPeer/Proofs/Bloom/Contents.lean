import LightPeer.Proofs.Bloom.Membership

/-!
# What is in a filter

A filter begins without any bit set, and every item adds its own bits.  So at any time the bits
of a filter are those of the items that were inserted, taken together: the order of the items
does not matter, nor does an item that comes twice, and a filter without bits has no items.

The size and the number of functions are settled before the first item.  A filter has at least
one byte and one function whatever the number of items and the rate are, so there is always a bit
for an item to set.

* `eq_of_testBit` — a field of bits is made of its bits;
* `testBit_foldl_insert` — what many items do to the bits of a filter;
* `isEmpty_iff` — a filter is empty if no bit is set;
* `bits_of_items` — a filter is the union of its items.
-/

namespace LightPeer

namespace Bloom

/-- A filter that has just been made has no bit set, and none is found behind its end. -/
theorem testBit_replicate (size j : Nat) : testBit (Array.replicate size 0) j = false := by
  rw [testBit, Array.getD_eq_getD_getElem?, Array.getElem?_replicate]
  split <;> exact Nat.zero_testBit _

/-- The bits of a filter are those of its bytes, the least significant one of each byte first. -/
theorem testBit_of_lt {data : Array UInt8} {i : Nat} (hi : i < data.size) {k : Nat} (hk : k < 8) :
    testBit data (8 * i + k) = data[i].toNat.testBit k := by
  have hbyte : (8 * i + k) / 8 = i := by omega
  have hoffset : (8 * i + k) % 8 = k := by omega
  rw [testBit, hbyte, hoffset, Array.getD_eq_getD_getElem?, Array.getElem?_eq_getElem hi,
    Option.getD_some]

/-- A byte is made of its eight bits. -/
theorem byte_eq_of_testBit {a b : UInt8} (h : ∀ k < 8, a.toNat.testBit k = b.toNat.testBit k) :
    a = b := by
  refine UInt8.toNat_inj.mp (Nat.eq_of_testBit_eq fun k => ?_)
  by_cases hk : k < 8
  · exact h k hk
  · have hpow : 2 ^ 8 ≤ 2 ^ k := Nat.pow_le_pow_right (by decide) (Nat.le_of_not_lt hk)
    rw [Nat.testBit_lt_two_pow (Nat.lt_of_lt_of_le a.toNat_lt hpow),
      Nat.testBit_lt_two_pow (Nat.lt_of_lt_of_le b.toNat_lt hpow)]

/-- **A field of bits is made of its bits**, so that filters with the same bits are the same
bytes. -/
theorem eq_of_testBit {data data' : Array UInt8} (hsize : data.size = data'.size)
    (hbits : ∀ j, testBit data j = testBit data' j) : data = data' := by
  refine Array.ext hsize fun i hi hi' => byte_eq_of_testBit fun k hk => ?_
  rw [← testBit_of_lt hi hk, ← testBit_of_lt hi' hk, hbits]

end Bloom

namespace BloomFilter

variable {f : BloomFilter} {items : List Bytes}

/-- The bits of an item are those that the functions of the filter lead to. -/
theorem mem_bitIndices_iff {item : Bytes} {j : Nat} :
    j ∈ f.bitIndices item ↔ ∃ k < f.functions, j = f.bitIndex item k := by
  simp only [bitIndices, List.mem_map, List.mem_range, eq_comm]

/-- A filter is empty if and only if none of its bits is set. -/
theorem isEmpty_iff : f.isEmpty = true ↔ ∀ j, Bloom.testBit f.data j = false := by
  have hzero : f.data = Array.replicate f.data.size 0 ↔ ∀ j, Bloom.testBit f.data j = false := by
    constructor
    · intro hdata j
      rw [hdata]
      exact Bloom.testBit_replicate _ j
    · intro hbits
      refine Bloom.eq_of_testBit (by simp) fun j => ?_
      rw [hbits, Bloom.testBit_replicate]
  rw [← hzero, Array.eq_replicate_iff, isEmpty, Array.all_eq_true_iff_forall_mem]
  simp

section
variable (f : BloomFilter) (items : List Bytes)

@[simp] theorem size_insert (item : Bytes) : (f.insert item).data.size = f.data.size :=
  Bloom.size_foldl_setBit ..

@[simp] theorem size_foldl_insert : (items.foldl insert f).data.size = f.data.size := by
  induction items generalizing f with
  | nil => rfl
  | cons item items ih => rw [List.foldl_cons, ih, size_insert]

@[simp] theorem functions_foldl_insert : (items.foldl insert f).functions = f.functions := by
  induction items generalizing f with
  | nil => rfl
  | cons item items ih => rw [List.foldl_cons, ih, functions_insert]

@[simp] theorem tweak_foldl_insert : (items.foldl insert f).tweak = f.tweak := by
  induction items generalizing f with
  | nil => rfl
  | cons item items ih => rw [List.foldl_cons, ih, tweak_insert]

/-- **Many items set the bits of each of them**, and leave the others. -/
theorem testBit_foldl_insert (j : Nat) :
    Bloom.testBit (items.foldl insert f).data j = true ↔
      Bloom.testBit f.data j = true ∨ ∃ item ∈ items, j ∈ f.bitIndices item := by
  induction items generalizing f with
  | nil => simp
  | cons item items ih =>
    have hindices (other : Bytes) : (f.insert item).bitIndices other = f.bitIndices other :=
      f.bitIndices_insert other item
    simp only [List.foldl_cons, ih, testBit_insert, hindices, Bool.or_eq_true, decide_eq_true_eq,
      List.mem_cons, exists_eq_or_imp, or_assoc]

end

/-- The bits of a filter that began empty are those of its items. -/
theorem testBit_ofItems (elements : Nat) (rate : Rate) (tweak : UInt32) (items : List Bytes)
    (j : Nat) : Bloom.testBit (items.foldl insert (new elements rate tweak)).data j = true ↔
      ∃ item ∈ items, j ∈ (new elements rate tweak).bitIndices item := by
  have hnone : Bloom.testBit (new elements rate tweak).data j = false :=
    Bloom.testBit_replicate _ j
  rw [testBit_foldl_insert, hnone]
  exact or_iff_right Bool.false_ne_true

/-- An item has at least one bit, as a filter has at least one function. -/
theorem exists_mem_bitIndices (f : BloomFilter) (item : Bytes) : ∃ j, j ∈ f.bitIndices item :=
  ⟨_, mem_bitIndices_iff.mpr ⟨0, f.one_le_functions, rfl⟩⟩

/-- Inserted items are contained. -/
theorem contains_foldl_insert_of_mem {item : Bytes} (hitem : item ∈ items) :
    (items.foldl insert f).contains item = true := by
  rw [contains_iff]
  intro j hj
  have hindices : (items.foldl insert f).bitIndices item = f.bitIndices item := by
    rw [bitIndices, bitIndices, functions_foldl_insert]
    refine List.map_congr_left fun k _ => ?_
    rw [bitIndex, bitIndex, bitCount, bitCount, size_foldl_insert, tweak_foldl_insert]
  rw [hindices] at hj
  exact (testBit_foldl_insert f items j).mpr (.inr ⟨item, hitem, hj⟩)

/-- **A filter is the union of its items.**  Whatever it was sized for, it keeps its size and its
number of functions, which are within the limits, every bit of an item is one that it has, and
exactly the bits of the items that were inserted are set.  So inserted items are contained, what
is contained stays so, only a filter without items is empty, and the bytes depend on which items
there are alone. -/
theorem bits_of_items (elements : Nat) (rate : Rate) (tweak : UInt32) (items : List Bytes) :
    let empty := new elements rate tweak
    let f := items.foldl insert empty
    (f.data.size = empty.data.size ∧ 1 ≤ f.data.size ∧ f.data.size ≤ 36000) ∧
      (f.functions = empty.functions ∧ 1 ≤ f.functions ∧ f.functions ≤ 50) ∧
      (∀ item k, f.bitIndex item k / 8 < f.data.size) ∧
      (∀ j, Bloom.testBit f.data j = true ↔ ∃ item ∈ items, ∃ k < f.functions,
        j = (murmur3 item (UInt32.ofNat k * 0xFBA4C795 + tweak)).toNat % (8 * f.data.size)) ∧
      (∀ item ∈ items, f.contains item = true) ∧
      (∀ item other, f.contains item = true → (f.insert other).contains item = true) ∧
      (f.isEmpty = true ↔ items = []) ∧
      ∀ others : List Bytes, (∀ item, item ∈ others ↔ item ∈ items) →
        (others.foldl insert empty).bytes = f.bytes := by
  intro empty f
  have hsize : f.data.size = empty.data.size := size_foldl_insert empty items
  have hfunctions : f.functions = empty.functions := functions_foldl_insert empty items
  have hbits (j : Nat) : Bloom.testBit f.data j = true ↔
      ∃ item ∈ items, j ∈ empty.bitIndices item :=
    testBit_ofItems elements rate tweak items j
  refine ⟨⟨hsize, f.one_le_size, f.size_le⟩, ⟨hfunctions, f.one_le_functions, f.functions_le⟩,
    ?_, ?_, ?_, ?_, ?_, ?_⟩
  · intro item k
    have hlt := f.bitIndex_lt item k
    omega
  · intro j
    simp only [hbits, mem_bitIndices_iff, hsize, hfunctions]
    rfl
  · intro item hitem
    exact contains_foldl_insert_of_mem hitem
  · intro item other hitem
    exact contains_insert other hitem
  · rw [isEmpty_iff]
    constructor
    · intro hnone
      refine List.eq_nil_iff_forall_not_mem.mpr fun item hitem => ?_
      obtain ⟨j, hj⟩ := empty.exists_mem_bitIndices item
      have hset := (hbits j).mpr ⟨item, hitem, hj⟩
      rw [hnone] at hset
      cases hset
    · rintro rfl j
      exact Bloom.testBit_replicate _ j
  · intro others hsame
    have hdata : (others.foldl insert empty).data = f.data := by
      refine Bloom.eq_of_testBit (by rw [size_foldl_insert, hsize]) fun j => ?_
      rw [Bool.eq_iff_iff, hbits, testBit_ofItems elements rate tweak others j]
      simp only [hsame, empty]
    rw [bytes, bytes, hdata]

end BloomFilter

end LightPeer
