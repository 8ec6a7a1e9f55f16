import LightPeer.Text.Utf8

/-!
# Decoders

A decoder reads a value from the bytes ahead of a cursor.  It is given the byte
order in force and cannot change it, nor the data: all it can do is move the
cursor and answer with a value or with the reason why there is none.  The cursor
stays where the reading stopped in either case.
-/

namespace LightPeer.Wire

/-- Why a value could not be read or written. -/
inductive Error
  /-- A field needs more bytes than there are. -/
  | unexpectedEnd (needed remaining : Nat)
  /-- A declared count is larger than the number of bytes after it. -/
  | lengthOverflow (length : UInt64)
  /-- A range of the storage was addressed that does not exist. -/
  | outOfBounds
  deriving DecidableEq, Repr

/-- The text of a failure. -/
def Error.message : Error → String
  | .unexpectedEnd needed remaining =>
    s!"Unexpected end of data: needed {needed} bytes, {remaining} remaining"
  | .lengthOverflow length => s!"Declared length {length} exceeds the remaining data"
  | .outOfBounds => "Range outside of the storage"

/-- What a decoder is told: the byte order in force, and whether the cursor lies
beyond the end of the data. -/
structure Context where
  order : ByteOrder := .little
  pastEnd : Bool := false
  deriving DecidableEq, Repr

/-- Where a decoder stands: the position of the cursor and the bytes from there on. -/
structure Input where
  position : Nat
  ahead : Bytes
  deriving DecidableEq, Repr

/-- What a decoder answers, with the place where it stopped. -/
inductive Outcome (α : Type)
  | ok (value : α) (next : Input)
  | error (cause : Error) (next : Input)
  deriving Repr

/-- The place where the reading stopped. -/
def Outcome.next {α : Type} : Outcome α → Input
  | .ok _ next => next
  | .error _ next => next

/-- The value read or the reason why there is none. -/
def Outcome.toExcept {α : Type} : Outcome α → Except Error α
  | .ok value _ => .ok value
  | .error cause _ => .error cause

/-- Reads a value from the bytes ahead. -/
def Decoder (α : Type) : Type := Context → Input → Outcome α

namespace Decoder

/-- Reads nothing. -/
def succeed {α : Type} (value : α) : Decoder α := fun _ input => .ok value input

/-- One decoder after another; the first failure ends the reading. -/
def andThen {α β : Type} (d : Decoder α) (f : α → Decoder β) : Decoder β := fun context input =>
  match d context input with
  | .ok value next => f value context next
  | .error cause next => .error cause next

instance : Monad Decoder where
  pure := succeed
  bind := andThen

/-- Reads in another byte order. -/
def withOrder {α : Type} (order : ByteOrder) (d : Decoder α) : Decoder α := fun context input =>
  d { context with order } input

/-- The next `n` bytes.  Even an empty range does not exist beyond the end of the data. -/
def exactly (n : Nat) : Decoder { bs : Bytes // bs.length = n } := fun context input =>
  if h : Bytes.hasAtLeast n input.ahead then
    if n = 0 && context.pastEnd then .error .outOfBounds input
    else
      .ok ⟨input.ahead.take n, List.length_take_of_le (Bytes.hasAtLeast_iff.mp h)⟩
        ⟨input.position + n, input.ahead.drop n⟩
  else .error (.unexpectedEnd n input.ahead.length) input

/-- The next `n` bytes, as a plain byte string. -/
def take (n : Nat) : Decoder Bytes := do return (← exactly n).val

/-- Moves the cursor over the next `n` bytes without looking at them. -/
def skip (n : Nat) : Decoder Unit := fun _ input =>
  if Bytes.hasAtLeast n input.ahead then .ok () ⟨input.position + n, input.ahead.drop n⟩
  else .error (.unexpectedEnd n input.ahead.length) input

/-- Whether no byte is left. -/
def atEnd : Decoder Bool := fun _ input => .ok input.ahead.isEmpty input

/-- An unsigned integer of `width` bytes in the order in force. -/
def unsigned (width : Nat) : Decoder Nat := fun context input =>
  match take width context input with
  | .ok bs next => .ok (Bytes.toNat context.order bs) next
  | .error cause next => .error cause next

/-- One byte. -/
def uint8 : Decoder UInt8 := do return UInt8.ofNat (← unsigned 1)

/-- An unsigned integer of two bytes. -/
def uint16 : Decoder UInt16 := do return UInt16.ofNat (← unsigned 2)

/-- An unsigned integer of four bytes. -/
def uint32 : Decoder UInt32 := do return UInt32.ofNat (← unsigned 4)

/-- An unsigned integer of eight bytes. -/
def uint64 : Decoder UInt64 := do return UInt64.ofNat (← unsigned 8)

/-- A signed byte in two's complement. -/
def int8 : Decoder Int8 := do return (← uint8).toInt8

/-- A signed integer of four bytes in two's complement. -/
def int32 : Decoder Int32 := do return (← uint32).toInt32

/-- A signed integer of eight bytes in two's complement. -/
def int64 : Decoder Int64 := do return (← uint64).toInt64

/-- A byte read as a truth value: any but zero is true. -/
def bool : Decoder Bool := do return (← uint8) ≠ 0

/-- A text field of `width` bytes, which ends at the first zero byte. -/
def fixedString (width : Nat) : Decoder String := do
  return Utf8.decodeLossy ((← take width).takeWhile (· ≠ 0))

/-- Reads a value and gives the bytes it was read from. -/
def withConsumed {α : Type} (d : Decoder α) : Decoder (α × Bytes) := fun context input =>
  match d context input with
  | .ok value next => .ok (value, input.ahead.take (next.position - input.position)) next
  | .error cause next => .error cause next

/-- `count` values after those in `acc`, the last of which comes first. -/
def repeatOnto {α : Type} (d : Decoder α) :
    Nat → List α → Context → Input → Outcome (List α)
  | 0, acc, _, input => .ok acc.reverse input
  | count + 1, acc, context, input =>
    match d context input with
    | .ok value next => repeatOnto d count (value :: acc) context next
    | .error cause next => .error cause next

/-- `count` values in a row. -/
def replicate {α : Type} (count : Nat) (d : Decoder α) : Decoder (List α) :=
  repeatOnto d count []

/-- Runs a decoder on a whole byte string, least significant byte first. -/
def run {α : Type} (d : Decoder α) (bs : Bytes) : Outcome α := d {} ⟨0, bs⟩

/-- The value at the front of a byte string. -/
def decode {α : Type} (d : Decoder α) (bs : Bytes) : Except Error α := (d.run bs).toExcept

end Decoder

end LightPeer.Wire
