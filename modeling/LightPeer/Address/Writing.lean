import LightPeer.Address.Bech32

/-!
# Writing Bech32

The other direction: what a text of this form looks like that has a readable part, values of five
bits and a variant.  Bytes are packed into such values from their first bit on, and the last value
is filled up with zero bits.
-/

namespace LightPeer.Bech32

/-- A number as `n` values, the most significant one first. -/
def groups : Nat → Nat → List Nat
  | 0, _ => []
  | n + 1, m => groups n (m / 32) ++ [m % 32]

/-- How many values pack `n` bytes. -/
def packedLength (n : Nat) : Nat := (8 * n + 4) / 5

/-- The values that pack bytes. -/
def pack (bs : Bytes) : List Nat :=
  groups (packedLength bs.length)
    (Bytes.toNat .big bs * 2 ^ (5 * packedLength bs.length - 8 * bs.length))

/-- The checksum of a variant: what has to follow for the remainder to be the constant. -/
def checksumOf (variant : Variant) (readable : List Char) (values : List Nat) : List Nat :=
  groups 6
    (polymod (expand readable ++ values ++ List.replicate 6 0) ^^^ variant.constant).toNat

/-- The symbol of a value. -/
def symbolOf (value : Nat) : Char := symbols.getD value 'q'

/-- The text of what a text was taken apart into, in lower case. -/
def Decoded.written (d : Decoded) : List Char :=
  d.readable ++ '1' :: (d.values ++ checksumOf d.variant d.readable d.values).map symbolOf

end LightPeer.Bech32
