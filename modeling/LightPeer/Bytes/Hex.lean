import LightPeer.Bytes.Basic
import LightPeer.Text.Quoted

/-!
# Hexadecimal text

Every byte is written as two lower-case digits.  A reader of a field of known
length takes digits of either case and gives the first cause of refusal: an odd
number of digits, then a wrong number of them, then the first byte of the text
that is no digit.
-/

namespace LightPeer.Hex

/-- The digit of a number below sixteen. -/
def digit (n : Nat) : Char :=
  if n < 10 then Char.ofNat (48 + n) else Char.ofNat (87 + n)

/-- The two digits of a byte. -/
def ofByte (b : UInt8) : List Char :=
  [digit (b.toNat / 16), digit (b.toNat % 16)]

/-- Bytes as hexadecimal text, two lower-case digits each. -/
def encode (bs : Bytes) : String :=
  String.ofList (bs.flatMap ofByte)

/-- The value of a digit of either case, given as a byte of the text. -/
def digitValue? (b : UInt8) : Option UInt8 :=
  if 48 ≤ b ∧ b ≤ 57 then some (b - 48)
  else if 97 ≤ b ∧ b ≤ 102 then some (b - 87)
  else if 65 ≤ b ∧ b ≤ 70 then some (b - 55)
  else none

/-- Why a text is not the hexadecimal form of a field. -/
inductive Error
  | oddLength
  | invalidStringLength
  | invalidCharacter (byte : UInt8) (index : Nat)
  deriving DecidableEq, Repr

/-- The text of a refusal.  An offending byte is shown as the character with its number. -/
def Error.message : Error → String
  | .oddLength => "Odd number of digits"
  | .invalidStringLength => "Invalid string length"
  | .invalidCharacter byte index =>
    "Invalid character " ++ Text.quotedChar (Char.ofNat byte.toNat) ++
      " at position " ++ toString index

/-- Pairs of digits as bytes; `index` is the position of the first digit. -/
def decodePairs (index : Nat) : Bytes → Except Error Bytes
  | high :: low :: rest =>
    match digitValue? high, digitValue? low with
    | none, _ => .error (.invalidCharacter high index)
    | some _, none => .error (.invalidCharacter low (index + 1))
    | some h, some l =>
      match decodePairs (index + 2) rest with
      | .error e => .error e
      | .ok bs => .ok ((h * 16 + l) :: bs)
  | [odd] => .error (.invalidCharacter odd index)
  | [] => .ok []

/-- Reads the text of a field of `width` bytes, given in UTF-8. -/
def decodeField (width : Nat) (text : Bytes) : Except Error Bytes :=
  if text.length % 2 ≠ 0 then .error .oddLength
  else if text.length / 2 ≠ width then .error .invalidStringLength
  else decodePairs 0 text

end LightPeer.Hex
