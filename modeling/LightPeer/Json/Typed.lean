import LightPeer.Decimal.Nearest
import LightPeer.Json.Value
import LightPeer.Text.Utf8

/-!
# What JSON values mean

The readers of this module take a value for something of a type, or refuse it.
Nothing is converted: a whole number must be written without a point or a power of
ten, and text must be a string.

A record is an object whose members are found by name, or an array of the values in
the order of the names; what is missing is left to its default.  A choice is a
string, or an object whose one member has that name and the value null.
-/

namespace LightPeer.Json

/-- The bytes of a text, in which a character beyond sixteen bits may be given by two
units; a unit that is half of such a pair must not stand alone. -/
def textBytes? : List Piece → Option Bytes
  | [] => some []
  | .byte b :: ps => (textBytes? ps).map (b :: ·)
  | .unit high :: .unit low :: ps =>
    if 0xD800 ≤ high && high ≤ 0xDBFF then
      if 0xDC00 ≤ low && low ≤ 0xDFFF then
        let c := Char.ofNat (0x10000 + (high - 0xD800) * 1024 + (low - 0xDC00))
        (textBytes? ps).map (Utf8.encode (String.singleton c) ++ ·)
      else none
    else if 0xDC00 ≤ high && high ≤ 0xDFFF then none
    else (textBytes? (.unit low :: ps)).map (Utf8.encode (String.singleton (Char.ofNat high)) ++ ·)
  | .unit n :: ps =>
    if 0xD800 ≤ n && n ≤ 0xDFFF then none
    else (textBytes? ps).map (Utf8.encode (String.singleton (Char.ofNat n)) ++ ·)

/-- The text of a string. -/
def text? (pieces : List Piece) : Option String := (textBytes? pieces).bind Utf8.decode?

namespace Number

/-- The whole number written without point, power of ten, or a minus before zero. -/
def integer? (n : Number) : Option Int :=
  if n.fraction.isSome || n.exponent.isSome then none
  else
    let value := valueOf n.whole
    if n.negative then if value = 0 then none else some (-(value : Int)) else some value

/-- The digits of a number brought into 64 bits: `significand * 10 ^ exponent`. -/
structure Short where
  significand : UInt64
  exponent : Int

/-- Whether another digit still fits into 64 bits. -/
def Short.fits (s : Short) (digit : Nat) : Bool := s.significand.toNat * 10 + digit < 2 ^ 64

/-- The number with one more digit. -/
def Short.push (s : Short) (digit : Nat) : UInt64 := s.significand * 10 + UInt64.ofNat digit

/-- The digits before the point.  From the first that does not fit on, they only raise
the power of ten. -/
def shortWhole (s : Short) : List Nat → Short
  | [] => s
  | d :: ds =>
    if s.fits d then shortWhole { s with significand := s.push d } ds
    else { s with exponent := s.exponent + (ds.length + 1 : Nat) }

/-- The digits behind the point.  From the first that does not fit on, they do not count. -/
def shortFraction (s : Short) : List Nat → Short
  | [] => s
  | d :: ds => if s.fits d then shortFraction ⟨s.push d, s.exponent - 1⟩ ds else s

/-- Brings a power of ten into the range of a double from below. -/
def raise (f : Float) (exponent : Int) : Float × Int :=
  if _low : exponent < -308 then
    if f == 0 then (f, 0) else raise (f / 1e308) (exponent + 308)
  else (f, exponent)
termination_by (-exponent).toNat

/-- The value of the digits in floating point: the significand times or divided by one
power of ten.  There is none if it is not finite. -/
def Short.float? (s : Short) : Option Float :=
  let (f, exponent) := raise s.significand.toFloat s.exponent
  if exponent < 0 then some (f / Decimal.nearest 1 (-exponent))
  else if 308 < exponent then if f == 0 then some f else none
  else
    let product := f * Decimal.nearest 1 exponent
    if product.isInf then none else some product

/-- The number in floating point. -/
def float? (n : Number) : Option Float :=
  let whole := shortWhole ⟨0, 0⟩ n.whole
  let short := shortFraction whole (n.fraction.getD [])
  let short := { short with exponent := short.exponent + n.exponent.getD 0 }
  short.float?.map fun f => if n.negative then -f else f

end Number

namespace Value

/-- A value that is a text. -/
def text? : Value → Option String
  | .string pieces => Json.text? pieces
  | _ => none

/-- A value that is a whole number. -/
def integer? : Value → Option Int
  | .number n => n.integer?
  | _ => none

/-- A value that is a whole number in a range. -/
def ranged? (low high : Int) (v : Value) : Option Int :=
  v.integer?.bind fun n => if low ≤ n && n ≤ high then some n else none

/-- A value that is a signed number of 32 bits. -/
def int32? (v : Value) : Option Int32 := (v.ranged? (-(2 ^ 31)) (2 ^ 31 - 1)).map Int32.ofInt

/-- A value that is a number of 32 bits. -/
def uint32? (v : Value) : Option UInt32 :=
  (v.ranged? 0 (2 ^ 32 - 1)).map fun n => UInt32.ofNat n.toNat

/-- A value that is a byte. -/
def uint8? (v : Value) : Option UInt8 := (v.ranged? 0 255).map fun n => UInt8.ofNat n.toNat

/-- A value that is a number. -/
def float? : Value → Option Float
  | .number n => n.float?
  | _ => none

/-- The name of a choice, and what is given with it. -/
def choice? : Value → Option (String × Option Value)
  | .string pieces => (Json.text? pieces).map fun name => (name, none)
  | .object [(name, v)] => (Json.text? name).map fun name => (name, some v)
  | _ => none

/-- The name of a choice that comes with nothing. -/
def bareChoice? (v : Value) : Option String :=
  match v.choice? with
  | some (name, none) => some name
  | some (name, some .null) => some name
  | _ => none

/-- The named members of an object; each name may occur once, other names do not matter. -/
def members? (names : List String) : List (List Piece × Value) → Option (List (String × Value))
  | [] => some []
  | (pieces, v) :: ms =>
    match Json.text? pieces, members? names ms with
    | some name, some rest =>
      if ! names.contains name then some rest
      else if rest.any fun m => m.1 = name then none
      else some ((name, v) :: rest)
    | _, _ => none

/-- The fields of a record, by name. -/
def record? (names : List String) : Value → Option (List (String × Value))
  | .object members => members? names members
  | .array items => if items.length ≤ names.length then some (names.zip items) else none
  | _ => none

end Value

/-- A field of a record, or a default if it is missing. -/
def field? {α : Type} (fields : List (String × Value)) (name : String) (read : Value → Option α)
    (default : α) : Option α :=
  match fields.find? fun f => f.1 = name with
  | some (_, v) => read v
  | none => some default

end LightPeer.Json
