import LightPeer.Address.Base58
import LightPeer.Address.Bech32

/-!
# Addresses

An address is a text form of a 20-byte hash of a key or script.  Filters match
on the hash, so that is all that is taken from the text: `Address.hash` tries the
form with a witness program first and the older form with a checksum second.
-/

namespace LightPeer

/-- A 20-byte hash of a key or script. -/
structure Hash160 where
  bytes : Bytes
  length_bytes : bytes.length = 20

instance : DecidableEq Hash160 := fun a b =>
  if h : a.bytes = b.bytes then isTrue (by cases a; cases b; cases h; rfl)
  else isFalse fun hab => h (hab ▸ rfl)

namespace Address

/-- Why a text is not an address. -/
inductive Error
  | unrecognized (text : String)
  | unexpectedLength (length : Nat)
  deriving DecidableEq, Repr

/-- The text of a refusal. -/
def Error.message : Error → String
  | .unrecognized text => "Unrecognized address: " ++ text
  | .unexpectedLength length => s!"Address payload is {length} bytes, expected 20"

/-- The witness program of an address; the symbol before it is the witness version. -/
def witnessProgram? (text : String) : Option Bytes :=
  match Bech32.decode? text with
  | none => none
  | some decoded =>
    match decoded.values with
    | [] => none
    | _ :: program => Bech32.bytes? program

/-- The bytes that an address commits to. -/
def payload? (text : String) : Option Bytes :=
  match witnessProgram? text with
  | some program => some program
  | none => Base58.decodeChecked? text

/-- The hash that an address commits to. -/
def hash (text : String) : Except Error Hash160 :=
  match payload? text with
  | none => .error (.unrecognized text)
  | some bs => if h : bs.length = 20 then .ok ⟨bs, h⟩ else .error (.unexpectedLength bs.length)

end Address

end LightPeer
