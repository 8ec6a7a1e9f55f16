import LightPeer.Record.Hash

/-!
# Inventories

An inventory entry names an object by its kind and hash.  Kinds are numbers, of
which a light client acts on the first few.
-/

namespace LightPeer

open Wire

/-- The kind of an object. -/
inductive InventoryKind
  | error
  | tx
  | block
  | filteredBlock
  /-- A kind that is not acted on, by its number. -/
  | other (number : UInt32)
  deriving DecidableEq, Repr, Inhabited

namespace InventoryKind

/-- The number of a kind. -/
def toNumber : InventoryKind → UInt32
  | .error => 0
  | .tx => 1
  | .block => 2
  | .filteredBlock => 3
  | .other number => number

/-- The kind with a number. -/
def ofNumber (number : UInt32) : InventoryKind :=
  if number = 0 then .error
  else if number = 1 then .tx
  else if number = 2 then .block
  else if number = 3 then .filteredBlock
  else .other number

/-- The name of a kind. -/
def name : InventoryKind → String
  | .error => "Error"
  | .tx => "Tx"
  | .block => "Block"
  | .filteredBlock => "FilteredBlock"
  | .other number => s!"Other({number})"

theorem toNumber_ofNumber (number : UInt32) : (ofNumber number).toNumber = number := by
  unfold ofNumber
  split
  · simp_all [toNumber]
  · split
    · simp_all [toNumber]
    · split
      · simp_all [toNumber]
      · split <;> simp_all [toNumber]

end InventoryKind

/-- An object, announced or asked for. -/
structure Inventory where
  kind : InventoryKind
  hash : Hash256
  deriving DecidableEq, Inhabited

namespace Inventory

/-- The fields of an entry. -/
def pieces (i : Inventory) : List Bytes :=
  [Bytes.ofNat .little 4 i.kind.toNumber.toNat, i.hash.bytes]

/-- Reads an entry. -/
def decoder : Decoder Inventory :=
  Decoder.withOrder .little do
    let number ← Decoder.uint32
    let hash ← hashDecoder
    return ⟨InventoryKind.ofNumber number, hash⟩

end Inventory

end LightPeer
