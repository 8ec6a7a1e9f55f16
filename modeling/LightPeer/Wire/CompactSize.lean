import LightPeer.Wire.Decoder

/-!
# Compact sizes

A count is written in one, three, five or nine bytes: a number up to `0xFC` is a
single byte, and the bytes `0xFD`, `0xFE` and `0xFF` announce two, four or eight
more, least significant first whatever byte order is in force.  Texts, byte
strings and lists are written behind their count.

Every counted item takes at least one byte, so `length` refuses a count larger
than the number of bytes after it before anything is read.
-/

namespace LightPeer.Wire

namespace CompactSize

/-- The number of bytes in which a count is written. -/
def size (n : UInt64) : Nat :=
  if n ≤ 0xFC then 1 else if n ≤ 0xFFFF then 3 else if n ≤ 0xFFFFFFFF then 5 else 9

/-- A count in its shortest form, as the fields that it is written in. -/
def pieces (n : UInt64) : List Bytes :=
  if n ≤ 0xFC then [Bytes.ofNat .little 1 n.toNat]
  else if n ≤ 0xFFFF then [[0xFD], Bytes.ofNat .little 2 n.toNat]
  else if n ≤ 0xFFFFFFFF then [[0xFE], Bytes.ofNat .little 4 n.toNat]
  else [[0xFF], Bytes.ofNat .little 8 n.toNat]

/-- A count in its shortest form. -/
def encode (n : UInt64) : Bytes := (pieces n).flatten

theorem length_encode (n : UInt64) : (encode n).length = size n := by
  unfold encode pieces size
  split
  · simp
  · split
    · simp
    · split <;> simp

/-- Reads a count in any of its forms. -/
def decoder : Decoder UInt64 := do
  let first ← Decoder.uint8
  Decoder.withOrder .little <|
    if first = 0xFD then do return UInt64.ofNat (← Decoder.unsigned 2)
    else if first = 0xFE then do return UInt64.ofNat (← Decoder.unsigned 4)
    else if first = 0xFF then Decoder.uint64
    else return first.toUInt64

end CompactSize

namespace Decoder

/-- A count of bytes or items that are to follow, checked against the bytes that do. -/
def length : Decoder Nat := fun context input =>
  match CompactSize.decoder context input with
  | .ok n next =>
    if Bytes.hasAtLeast n.toNat next.ahead then .ok n.toNat next
    else .error (.lengthOverflow n) next
  | .error cause next => .error cause next

/-- A byte string behind its length. -/
def varBytes : Decoder Bytes := do take (← length)

/-- A text behind its length in bytes. -/
def varString : Decoder String := do return Utf8.decodeLossy (← varBytes)

/-- A list behind its length. -/
def vector {α : Type} (d : Decoder α) : Decoder (List α) := do replicate (← length) d

end Decoder

/-- The fields of a byte string behind its length. -/
def varBytesPieces (bs : Bytes) : List Bytes :=
  CompactSize.pieces (UInt64.ofNat bs.length) ++ [bs]

/-- The fields of a list behind its length. -/
def vectorPieces {α : Type} (pieces : α → List Bytes) (items : List α) : List Bytes :=
  CompactSize.pieces (UInt64.ofNat items.length) ++ items.flatMap pieces

/-- A text field of `width` bytes: a longer text is cut, a shorter one filled with zeros. -/
def fixedStringBytes (width : Nat) (text : String) : Bytes :=
  let bs := (Utf8.encode text).take width
  bs ++ Bytes.replicate (width - bs.length) 0

end LightPeer.Wire
