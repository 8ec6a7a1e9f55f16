import LightPeer.Digest.Hash256

/-!
# Base58 with a checksum

A byte string is read as a number and written with 58 digits; every zero byte at
its front is written as the digit `1`.  The checked form ends in the first four
bytes of the double digest of what comes before, and begins with a byte that
tells the kind of address.
-/

namespace LightPeer.Base58

/-- The digits in order; those that are easily mistaken for others are left out. -/
def digits : List Char :=
  "123456789ABCDEFGHJKLMNPQRSTUVWXYZabcdefghijkmnopqrstuvwxyz".toList

/-- The value of a digit. -/
def digitValue? (c : Char) : Option Nat := digits.idxOf? c

/-- The number written with these digits, most significant first, behind `acc`. -/
def number? (acc : Nat) : List Char → Option Nat
  | [] => some acc
  | c :: cs =>
    match digitValue? c with
    | none => none
    | some v => number? (58 * acc + v) cs

/-- The bytes of a number in front of `acc`, most significant first and without zeros
at the front. -/
def bytesOnto (n : Nat) (acc : Bytes) : Bytes :=
  if h : n = 0 then acc else bytesOnto (n / 256) (UInt8.ofNat n :: acc)
termination_by n
decreasing_by omega

/-- The byte string written as this text. -/
def decode? (text : String) : Option Bytes :=
  let cs := text.toList
  match number? 0 cs with
  | none => none
  | some n => some (Bytes.replicate (cs.takeWhile (· = '1')).length 0 ++ bytesOnto n [])

/-- The bytes between the first one and the checksum, if the checksum is right. -/
def decodeChecked? (text : String) : Option Bytes :=
  match decode? text with
  | none => none
  | some raw =>
    if raw.length < 5 then none
    else
      let body := raw.take (raw.length - 4)
      if checksum body = raw.drop (raw.length - 4) then some (body.drop 1) else none

end LightPeer.Base58
