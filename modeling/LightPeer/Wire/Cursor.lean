import LightPeer.Wire.CompactSize

/-!
# A growing store of bytes with one cursor

Reading and writing share the cursor, which may be set anywhere, also beyond the
end.  Writing overwrites what is there and lets the store grow when it is too
short; a new store is filled with zeros.  A byte order can be set for some steps
only, and then the one before it is in force again behind them.
-/

namespace LightPeer.Wire

/-- Bytes, the position of the next read or write, and the byte order in force. -/
structure Cursor where
  data : Bytes
  position : Nat := 0
  order : ByteOrder := .little
  deriving DecidableEq, Repr

namespace Cursor

/-- Positions and sizes are words of 64 bits. -/
def positionLimit : Nat := 2 ^ 64

/-- No store is this long. -/
def sizeLimit : Nat := 2 ^ 63

/-- A store of zeros to write to. -/
def withCapacity (size : Nat) : Cursor := ⟨Bytes.replicate size 0, 0, .little⟩

/-- A store with these bytes, read from the start. -/
def wrap (bs : Bytes) : Cursor := ⟨bs, 0, .little⟩

/-- The length of the store. -/
def capacity (c : Cursor) : Nat := c.data.length

/-- The number of bytes from the cursor to the end. -/
def remaining (c : Cursor) : Nat := c.data.length - c.position

/-- The bytes in front of the cursor. -/
def written (c : Cursor) : Bytes := c.data.take c.position

/-- The bytes from `start` up to `stop`, if the store has that range. -/
def slice? (c : Cursor) (start stop : Nat) : Option Bytes :=
  if start ≤ stop ∧ stop ≤ c.data.length then some ((c.data.drop start).take (stop - start))
  else none

/-- What a decoder is told. -/
def context (c : Cursor) : Context := ⟨c.order, c.data.length < c.position⟩

/-- Where a decoder starts. -/
def input (c : Cursor) : Input := ⟨c.position, c.data.drop c.position⟩

/-- Reads a value; only the cursor moves. -/
def read {α : Type} (d : Decoder α) (c : Cursor) : Except Error α × Cursor :=
  let outcome := d c.context c.input
  (outcome.toExcept, { c with position := outcome.next.position })

/-- The next bytes are counted first, and then addressed by their range. -/
def getBytes (count : Nat) (c : Cursor) : Except Error Bytes × Cursor :=
  if c.remaining < count then (.error (.unexpectedEnd count c.remaining), c)
  else
    match c.slice? c.position (c.position + count) with
    | some bs => (.ok bs, { c with position := c.position + count })
    | none => (.error .outOfBounds, c)

/-- One step after another; after the first failure there are no more. -/
def andThen {α β : Type} (step : Cursor → Except Error α × Cursor)
    (f : α → Cursor → Except Error β × Cursor) (c : Cursor) : Except Error β × Cursor :=
  match step c with
  | (.ok a, next) => f a next
  | (.error cause, next) => (.error cause, next)

/-- A byte order is set for some steps, and the one before it is put back whatever they answer. -/
def inOrder {α : Type} (order : ByteOrder) (steps : Cursor → α × Cursor) (c : Cursor) :
    α × Cursor :=
  let (answer, next) := steps { c with order }
  (answer, { next with order := c.order })

/-- The length of the store once `count` bytes are to be written at the cursor: as
it is if they fit, else the largest of twice the store, twice the bytes and what
they need. -/
def grownSize (c : Cursor) (count : Nat) : Nat :=
  if c.remaining < count then
    max (2 * c.data.length) (max (2 * count) (c.position + count))
  else c.data.length

/-- Writes one field at the cursor. -/
def put (bs : Bytes) (c : Cursor) : Except Error Cursor :=
  let stop := c.position + bs.length
  let size := c.grownSize bs.length
  if positionLimit ≤ stop then .error .outOfBounds
  else if c.data.length < size ∧ sizeLimit ≤ size then .error .outOfBounds
  else if size < stop then .error .outOfBounds
  else
    let store := c.data ++ Bytes.replicate (size - c.data.length) 0
    .ok { c with data := store.take c.position ++ (bs ++ store.drop stop), position := stop }

/-- Writes fields one after another. -/
def putAll : List Bytes → Cursor → Except Error Cursor
  | [], c => .ok c
  | bs :: rest, c =>
    match c.put bs with
    | .ok next => putAll rest next
    | .error cause => .error cause

end Cursor

end LightPeer.Wire
