import LightPeer.Wire.CompactSize

/-!
# Counts taken at their word

The readers of `CompactSize` compare a count with the number of bytes behind it
before they read any item.  Those of this module do not: they read until an item
is missing.  As every item takes at least one byte, the early comparison refuses
only what would be refused in the end.
-/

namespace LightPeer.Wire.Decoder

/-- A byte string behind its length, which is not looked at beforehand. -/
def varBytesUnchecked : Decoder Bytes := do take (← CompactSize.decoder).toNat

/-- A list behind its length, which is not looked at beforehand. -/
def vectorUnchecked {α : Type} (d : Decoder α) : Decoder (List α) := do
  replicate (← CompactSize.decoder).toNat d

end LightPeer.Wire.Decoder
