import LightPeer.Power

/-!
# Byte strings and the integers written in them

A byte string is a list of bytes.  An unsigned integer takes a fixed number of
bytes in one of two orders; `toNat_ofNat` and `ofNat_toNat` say that reading and
writing such a field are inverse to each other.
-/

namespace LightPeer

/-- A string of bytes, first byte first. -/
abbrev Bytes := List UInt8

/-- The order of the bytes of an integer: least or most significant first. -/
inductive ByteOrder
  | little
  | big
  deriving DecidableEq, Repr, Inhabited

namespace Bytes

/-- The low `8 * width` bits of a number as `width` bytes, least significant first. -/
def ofNatLittle : Nat → Nat → Bytes
  | 0, _ => []
  | width + 1, n => UInt8.ofNat n :: ofNatLittle width (n / 256)

/-- The number whose bytes these are, least significant first. -/
def toNatLittle : Bytes → Nat
  | [] => 0
  | b :: bs => b.toNat + 256 * toNatLittle bs

/-- The low `8 * width` bits of a number as `width` bytes in the given order. -/
def ofNat (order : ByteOrder) (width n : Nat) : Bytes :=
  match order with
  | .little => ofNatLittle width n
  | .big => (ofNatLittle width n).reverse

/-- The number whose bytes these are in the given order. -/
def toNat (order : ByteOrder) (bs : Bytes) : Nat :=
  match order with
  | .little => toNatLittle bs
  | .big => toNatLittle bs.reverse

@[simp] theorem length_ofNatLittle (width n : Nat) : (ofNatLittle width n).length = width := by
  induction width generalizing n with
  | zero => rfl
  | succ width ih => simp [ofNatLittle, ih]

@[simp] theorem length_ofNat (order : ByteOrder) (width n : Nat) :
    (ofNat order width n).length = width := by
  cases order <;> simp [ofNat]

/-- A number is read back from its bytes, but for what does not fit into them. -/
theorem toNatLittle_ofNatLittle (width n : Nat) :
    toNatLittle (ofNatLittle width n) = n % 256 ^ width := by
  induction width generalizing n with
  | zero => simp [ofNatLittle, toNatLittle, Nat.mod_one]
  | succ width ih =>
    rw [ofNatLittle, toNatLittle, ih, Nat.pow_succ', Nat.mod_mul]
    simp

/-- A field of `width` bytes holds a number modulo `256 ^ width`. -/
theorem toNat_ofNat (order : ByteOrder) (width n : Nat) :
    toNat order (ofNat order width n) = n % 256 ^ width := by
  cases order <;> simp [toNat, ofNat, toNatLittle_ofNatLittle]

/-- The number that bytes stand for is within what so many bytes can hold. -/
theorem toNatLittle_lt (bs : Bytes) : toNatLittle bs < 256 ^ bs.length := by
  induction bs with
  | nil => simp [toNatLittle]
  | cons b bs ih =>
    have hb : b.toNat < 256 := UInt8.toNat_lt b
    simp only [toNatLittle, List.length_cons, Nat.pow_succ]
    omega

/-- The order of the bytes does not matter for this. -/
theorem toNat_lt (order : ByteOrder) (bs : Bytes) : toNat order bs < 256 ^ bs.length := by
  cases order
  · exact toNatLittle_lt bs
  · simpa [toNat] using toNatLittle_lt bs.reverse

/-- Bytes are written again as they were. -/
theorem ofNatLittle_toNatLittle (bs : Bytes) : ofNatLittle bs.length (toNatLittle bs) = bs := by
  induction bs with
  | nil => rfl
  | cons b bs ih =>
    have hb : b.toNat < 256 := UInt8.toNat_lt b
    have hq : (b.toNat + 256 * toNatLittle bs) / 256 = toNatLittle bs := by omega
    have hr : UInt8.ofNat (b.toNat + 256 * toNatLittle bs) = b := by
      apply UInt8.toNat_inj.mp
      simp only [UInt8.toNat_ofNat']
      omega
    simp only [List.length_cons, toNatLittle, ofNatLittle, hq, hr, ih]

/-- The bytes of a field are determined by the number they hold. -/
theorem ofNat_toNat (order : ByteOrder) (bs : Bytes) :
    ofNat order bs.length (toNat order bs) = bs := by
  cases order
  · exact ofNatLittle_toNatLittle bs
  · have h := ofNatLittle_toNatLittle bs.reverse
    rw [List.length_reverse] at h
    simp [ofNat, toNat, h]

/-- Whether there are at least `n` bytes.  No more than `n` of them are looked at. -/
def hasAtLeast : Nat → Bytes → Bool
  | 0, _ => true
  | _ + 1, [] => false
  | n + 1, _ :: bs => hasAtLeast n bs

/-- To look at no more than `n` of the bytes is enough to know whether there are as many. -/
theorem hasAtLeast_iff {n : Nat} {bs : Bytes} : hasAtLeast n bs = true ↔ n ≤ bs.length := by
  induction n generalizing bs with
  | zero => simp [hasAtLeast]
  | succ n ih => cases bs <;> simp [hasAtLeast, ih]

/-- `count` copies of a byte. -/
def replicate (count : Nat) (b : UInt8) : Bytes := List.replicate count b

@[simp] theorem length_replicate (count : Nat) (b : UInt8) :
    (replicate count b).length = count := by
  simp [replicate]

end Bytes

end LightPeer
