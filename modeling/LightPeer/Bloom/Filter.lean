import LightPeer.Bloom.Rate
import LightPeer.Digest.Murmur3

/-!
# Bloom filters

A filter is a field of bits and a number of hash functions, all of them Murmur3
under different seeds.  An item sets one bit for each function, and a filter may
contain an item if all of its bits are set.  The peer computes the same bits, so
the size, the number of functions and the seeds are fixed by the number of items,
the rate of false positives and the tweak.

Every filter has from 1 to 36000 bytes and from 1 to 50 functions.
-/

namespace LightPeer

namespace Bloom

/-- The largest size of a filter. -/
def maxBytes : Nat := 36000

/-- The largest number of hash functions. -/
def maxFunctions : Nat := 50

/-- The natural logarithm of two. -/
def ln2 : Float := 0.6931471805599453

/-- A number brought into a range. -/
def clamp (low high : Int) (x : Int) : Int := max low (min x high)

/-- The number of bytes for some items at a rate of false positives.  A result that is
no number counts as zero, and one out of range as the nearest limit. -/
def sizeFor (elements : Nat) (rate : Rate) : Nat :=
  let bits := (-1.0) / (ln2 * ln2) * (UInt64.ofNat elements).toFloat * rate.value.log
  max 1 ((clamp 0 (8 * maxBytes) bits.toInt64.toInt).toNat / 8)

/-- The number of functions for some items in a filter of this size. -/
def functionsFor (elements size : Nat) : Nat :=
  let functions := (UInt64.ofNat (8 * size)).toFloat / (UInt64.ofNat elements).toFloat * ln2
  (clamp 1 maxFunctions functions.toInt64.toInt).toNat

/-- A filter has a byte at least, whatever is wanted of it. -/
theorem one_le_sizeFor (elements : Nat) (rate : Rate) : 1 ≤ sizeFor elements rate :=
  Nat.le_max_left _ _

/-- No filter is larger than the protocol allows, also where the rate asks for more, or is no
number. -/
theorem sizeFor_le (elements : Nat) (rate : Rate) : sizeFor elements rate ≤ maxBytes := by
  simp only [sizeFor, clamp, maxBytes]
  omega

/-- A filter has a function at least. -/
theorem one_le_functionsFor (elements size : Nat) : 1 ≤ functionsFor elements size := by
  simp only [functionsFor, clamp, maxFunctions]
  omega

/-- No filter has more functions than the protocol allows. -/
theorem functionsFor_le (elements size : Nat) : functionsFor elements size ≤ maxFunctions := by
  simp only [functionsFor, clamp, maxFunctions]
  omega

/-- The seed of a hash function. -/
def seed (tweak : UInt32) (function : Nat) : UInt32 :=
  UInt32.ofNat function * 0xFBA4C795 + tweak

/-- Sets one bit of a field; bit `i` is bit `i % 8` of byte `i / 8`. -/
def setBit (data : Array UInt8) (i : Nat) : Array UInt8 :=
  data.modify (i / 8) fun b => b ||| (1 <<< UInt8.ofNat (i % 8))

/-- Whether one bit of a field is set. -/
def testBit (data : Array UInt8) (i : Nat) : Bool :=
  (data.getD (i / 8) 0).toNat.testBit (i % 8)

@[simp] theorem size_setBit (data : Array UInt8) (i : Nat) : (setBit data i).size = data.size := by
  simp [setBit]

@[simp] theorem size_foldl_setBit (data : Array UInt8) (is : List Nat) :
    (is.foldl setBit data).size = data.size := by
  induction is generalizing data with
  | nil => rfl
  | cons i is ih => simp [ih]

end Bloom

/-- A Bloom filter within the limits of the protocol. -/
structure BloomFilter where
  data : Array UInt8
  functions : Nat
  tweak : UInt32
  one_le_size : 1 ≤ data.size
  size_le : data.size ≤ Bloom.maxBytes
  one_le_functions : 1 ≤ functions
  functions_le : functions ≤ Bloom.maxFunctions

namespace BloomFilter

/-- An empty filter, sized for some items and a rate of false positives. -/
def new (elements : Nat) (rate : Rate) (tweak : UInt32) : BloomFilter :=
  let size := Bloom.sizeFor elements rate
  { data := Array.replicate size 0
    functions := Bloom.functionsFor elements size
    tweak
    one_le_size := by simpa [size] using Bloom.one_le_sizeFor elements rate
    size_le := by simpa [size] using Bloom.sizeFor_le elements rate
    one_le_functions := Bloom.one_le_functionsFor elements size
    functions_le := Bloom.functionsFor_le elements size }

/-- The number of bits. -/
def bitCount (f : BloomFilter) : Nat := 8 * f.data.size

/-- The bit that an item sets under one function. -/
def bitIndex (f : BloomFilter) (item : Bytes) (function : Nat) : Nat :=
  (murmur3 item (Bloom.seed f.tweak function)).toNat % f.bitCount

/-- The bits that an item sets. -/
def bitIndices (f : BloomFilter) (item : Bytes) : List Nat :=
  (List.range f.functions).map (f.bitIndex item)

/-- The filter with an item added. -/
def insert (f : BloomFilter) (item : Bytes) : BloomFilter :=
  { f with
    data := (f.bitIndices item).foldl Bloom.setBit f.data
    one_le_size := by simpa using f.one_le_size
    size_le := by simpa using f.size_le }

/-- Whether the filter may contain an item: it does if the item was added. -/
def contains (f : BloomFilter) (item : Bytes) : Bool :=
  (f.bitIndices item).all (Bloom.testBit f.data)

/-- Whether no bit is set. -/
def isEmpty (f : BloomFilter) : Bool := f.data.all (· = 0)

/-- The field of bits, eight to a byte. -/
def bytes (f : BloomFilter) : Bytes := f.data.toList

end BloomFilter

end LightPeer
