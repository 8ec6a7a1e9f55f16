import LightPeer.Wire.Cursor

/-!
# What is put into a store

A record is put into a store part by part.  An integer goes there in the byte order in force at
that moment.  An order may be set for everything behind it, or for one part only, and then the
order before it is put back.

`Writing` says what is put into a store and `run` puts it there.  Which bytes these are, and which
order is in force behind them, is settled beforehand, by `fields` and `orderAfter`.
-/

namespace LightPeer.Wire

/-- What is put into a store. -/
inductive Writing
  | nothing
  /-- Bytes as they are. -/
  | bytes (bs : Bytes)
  /-- The low bits of a number as `width` bytes in the order in force. -/
  | unsigned (width n : Nat)
  /-- An order for everything behind it. -/
  | setOrder (order : ByteOrder)
  /-- A part in an order of its own. -/
  | inOrder (order : ByteOrder) (part : Writing)
  | andThen (first second : Writing)
  deriving DecidableEq, Repr

namespace Writing

instance : Append Writing := ⟨andThen⟩

/-- Puts everything into a store, one field after another. -/
def run : Writing → Cursor → Except Error Cursor
  | nothing, c => .ok c
  | bytes bs, c => c.put bs
  | unsigned width n, c => c.put (Bytes.ofNat c.order width n)
  | setOrder order, c => .ok { c with order }
  | inOrder order part, c =>
    (part.run { c with order }).map fun next => { next with order := c.order }
  | andThen first second, c =>
    match first.run c with
    | .ok next => second.run next
    | .error cause => .error cause

/-- The order in force behind a writing. -/
def orderAfter : Writing → ByteOrder → ByteOrder
  | setOrder order, _ => order
  | andThen first second, order => second.orderAfter (first.orderAfter order)
  | nothing, order | bytes _, order | unsigned _ _, order | inOrder _ _, order => order

/-- The fields of a writing that begins in this order. -/
def fields : Writing → ByteOrder → List Bytes
  | nothing, _ | setOrder _, _ => []
  | bytes bs, _ => [bs]
  | unsigned width n, order => [Bytes.ofNat order width n]
  | inOrder order part, _ => part.fields order
  | andThen first second, order => first.fields order ++ second.fields (first.orderAfter order)

/-- The bytes of a writing that begins in this order. -/
def encoding (w : Writing) (order : ByteOrder) : Bytes := (w.fields order).flatten

/-- One writing after another. -/
def row : List Writing → Writing
  | [] => nothing
  | w :: ws => w ++ row ws

/-- The bytes of each of several writings, in the order that those before it have left in force. -/
def encodings : List Writing → ByteOrder → List Bytes
  | [], _ => []
  | w :: ws, order => w.encoding order :: encodings ws (w.orderAfter order)

def uint8 (n : UInt8) : Writing := bytes [n]

def uint16 (n : UInt16) : Writing := unsigned 2 n.toNat

def uint32 (n : UInt32) : Writing := unsigned 4 n.toNat

def uint64 (n : UInt64) : Writing := unsigned 8 n.toNat

def int32 (n : Int32) : Writing := uint32 n.toUInt32

def int64 (n : Int64) : Writing := uint64 n.toUInt64

/-- A truth value is one byte, one or zero. -/
def bool (b : Bool) : Writing := uint8 (if b then 1 else 0)

/-- A count in its shortest form, in an order of its own. -/
def compactSize (n : UInt64) : Writing :=
  inOrder .little <|
    if n ≤ 0xFC then unsigned 1 n.toNat
    else if n ≤ 0xFFFF then uint8 0xFD ++ unsigned 2 n.toNat
    else if n ≤ 0xFFFFFFFF then uint8 0xFE ++ unsigned 4 n.toNat
    else uint8 0xFF ++ uint64 n

/-- A byte string behind its length. -/
def varBytes (bs : Bytes) : Writing := compactSize (UInt64.ofNat bs.length) ++ bytes bs

/-- A text behind its length in bytes. -/
def varString (text : String) : Writing := varBytes (Utf8.encode text)

/-- A text in a field of `width` bytes. -/
def fixedString (width : Nat) (text : String) : Writing := bytes (fixedStringBytes width text)

/-- Items behind their number. -/
def vector {α : Type} (item : α → Writing) (items : List α) : Writing :=
  compactSize (UInt64.ofNat items.length) ++ row (items.map item)

end Writing

end LightPeer.Wire
