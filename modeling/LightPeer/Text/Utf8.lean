import LightPeer.Bytes.Basic

/-!
# UTF-8

Text is read one byte at a time by a machine that remembers the character begun.
A byte that cannot continue it ends a *maximal ill-formed part*: the lenient
reader writes U+FFFD once for each such part and starts again at that byte; the
strict reader refuses the whole text.
-/

namespace LightPeer.Utf8

/-- The bytes of a text. -/
def encode (text : String) : Bytes :=
  text.toList.flatMap String.utf8EncodeChar

/-- A character begun: its bits so far, the bytes still owed, and the range of the next one. -/
structure Partial where
  bits : Nat
  owed : Nat
  low : UInt8
  high : UInt8
  deriving DecidableEq, Repr

/-- What a first byte begins. -/
inductive Lead
  | complete (c : Char)
  | begun (p : Partial)
  | illFormed
  deriving Repr

/-- The second byte of a long form has a narrower range where the full one would
give an overlong form, a surrogate or a number above U+10FFFF. -/
def lead (b : UInt8) : Lead :=
  if b ≤ 0x7F then .complete (Char.ofNat b.toNat)
  else if 0xC2 ≤ b ∧ b ≤ 0xDF then .begun ⟨b.toNat % 32, 1, 0x80, 0xBF⟩
  else if b = 0xE0 then .begun ⟨0, 2, 0xA0, 0xBF⟩
  else if b = 0xED then .begun ⟨13, 2, 0x80, 0x9F⟩
  else if 0xE1 ≤ b ∧ b ≤ 0xEF then .begun ⟨b.toNat % 16, 2, 0x80, 0xBF⟩
  else if b = 0xF0 then .begun ⟨0, 3, 0x90, 0xBF⟩
  else if 0xF1 ≤ b ∧ b ≤ 0xF3 then .begun ⟨b.toNat % 8, 3, 0x80, 0xBF⟩
  else if b = 0xF4 then .begun ⟨4, 3, 0x80, 0x8F⟩
  else .illFormed

/-- The reader between two bytes: the characters so far, last one first, the
character begun if there is one, and whether every part was well formed. -/
structure Reader where
  read : List Char := []
  open? : Option Partial := none
  wellFormed : Bool := true
  deriving Repr

/-- The character that stands for an ill-formed part. -/
def replacement : Char := Char.ofNat 0xFFFD

/-- A byte where no character is begun. -/
def Reader.begin (r : Reader) (b : UInt8) : Reader :=
  match lead b with
  | .complete c => { r with read := c :: r.read, open? := none }
  | .begun p => { r with open? := some p }
  | .illFormed => { r with read := replacement :: r.read, open? := none, wellFormed := false }

/-- One more byte. -/
def Reader.push (r : Reader) (b : UInt8) : Reader :=
  match r.open? with
  | none => r.begin b
  | some p =>
    if p.low ≤ b ∧ b ≤ p.high then
      let bits := p.bits * 64 + b.toNat % 64
      if p.owed = 1 then { r with read := Char.ofNat bits :: r.read, open? := none }
      else { r with open? := some ⟨bits, p.owed - 1, 0x80, 0xBF⟩ }
    else
      { r with read := replacement :: r.read, open? := none, wellFormed := false }.begin b

/-- The end of the text ends an open character too. -/
def Reader.finish (r : Reader) : Reader :=
  match r.open? with
  | none => r
  | some _ => { r with read := replacement :: r.read, open? := none, wellFormed := false }

/-- Reads a text to its end. -/
def run (bs : Bytes) : Reader := (bs.foldl Reader.push {}).finish

/-- The text with U+FFFD in place of every maximal ill-formed part. -/
def decodeLossy (bs : Bytes) : String := String.ofList (run bs).read.reverse

/-- The text, if all of it is well formed. -/
def decode? (bs : Bytes) : Option String :=
  let r := run bs
  if r.wellFormed then some (String.ofList r.read.reverse) else none

end LightPeer.Utf8
