import LightPeer.Bytes.Basic

/-!
# Bech32

A text of this form has a readable part, a separator `1`, and symbols of five
bits each, the last six of which are a checksum over the readable part and the
others.  Two constants are in use for the checksum; the one that fits tells the
variant.  Letters are all of one case.
-/

namespace LightPeer.Bech32

/-- The symbols in the order of their values. -/
def symbols : List Char := "qpzry9x8gf2tvdw0s3jn54khce6mua7l".toList

/-- The value of a symbol of either case. -/
def symbolValue? (c : Char) : Option Nat := symbols.idxOf? c.toLower

/-- Which constant the checksum has. -/
inductive Variant
  | bech32
  | bech32m
  deriving DecidableEq, Repr

/-- The constant of a variant. -/
def Variant.constant : Variant → UInt32
  | .bech32 => 1
  | .bech32m => 0x2bc830a3

/-- A text taken apart, the checksum removed. -/
structure Decoded where
  readable : List Char
  values : List Nat
  variant : Variant
  deriving DecidableEq, Repr

/-- The generator of the checksum. -/
def generator : List UInt32 := [0x3b6a57b2, 0x26508e6d, 0x1ea119fa, 0x3d4233dd, 0x2a1462b3]

/-- The remainder after one more value. -/
def polymodStep (remainder : UInt32) (value : Nat) : UInt32 :=
  let top := remainder >>> 25
  let shifted := ((remainder &&& 0x1ffffff) <<< 5) ^^^ UInt32.ofNat value
  generator.zipIdx.foldl
    (fun r g => if (top >>> UInt32.ofNat g.2) &&& 1 = 1 then r ^^^ g.1 else r) shifted

/-- The remainder of all values. -/
def polymod (values : List Nat) : UInt32 := values.foldl polymodStep 1

/-- The readable part as values: the high bits of its characters, a zero, the low bits. -/
def expand (readable : List Char) : List Nat :=
  readable.map (fun c => c.toNat / 32) ++ 0 :: readable.map (fun c => c.toNat % 32)

/-- The variant whose checksum this is. -/
def variant? (readable : List Char) (values : List Nat) : Option Variant :=
  let remainder := polymod (expand readable ++ values)
  if remainder = Variant.bech32.constant then some .bech32
  else if remainder = Variant.bech32m.constant then some .bech32m
  else none

/-- A text cut at its last separator. -/
def split? (text : List Char) : Option (List Char × List Char) :=
  let back := text.reverse
  let data := back.takeWhile (· ≠ '1')
  match back.drop data.length with
  | [] => none
  | _ :: readable => some (readable.reverse, data.reverse)

/-- Whether the readable part has an allowed length and allowed characters. -/
def isReadable (readable : List Char) : Bool :=
  0 < readable.length && readable.length ≤ 83 &&
    readable.all fun c => 33 ≤ c.toNat && c.toNat ≤ 126

/-- Whether letters of both cases occur. -/
def isMixedCase (text : List Char) : Bool :=
  text.any Char.isLower && text.any Char.isUpper

/-- Takes a text apart and checks it. -/
def decode? (text : String) : Option Decoded :=
  match split? text.toList with
  | none => none
  | some (readable, data) =>
    if ! isReadable readable || isMixedCase (readable ++ data) then none
    else
      match data.mapM symbolValue? with
      | none => none
      | some values =>
        if values.length < 6 then none
        else
          let readable := readable.map Char.toLower
          match variant? readable values with
          | none => none
          | some variant => some ⟨readable, values.take (values.length - 6), variant⟩

/-- The bits of five-bit values as bytes, `bits` of them still pending in `acc`.  What
is left at the end must be fewer than five zero bits. -/
def regroup (acc bits : Nat) : List Nat → Option Bytes
  | [] => if bits < 5 ∧ acc % 2 ^ bits = 0 then some [] else none
  | v :: vs =>
    let acc := acc * 32 + v
    if bits + 5 < 8 then regroup acc (bits + 5) vs
    else
      let left := bits + 5 - 8
      match regroup (acc % 2 ^ left) left vs with
      | none => none
      | some bs => some (UInt8.ofNat (acc / 2 ^ left) :: bs)

/-- The bytes that these five-bit values pack. -/
def bytes? (values : List Nat) : Option Bytes := regroup 0 0 values

end LightPeer.Bech32
