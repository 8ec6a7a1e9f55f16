import LightPeer.Bytes.Hex
import LightPeer.Digest.Sha256
import LightPeer.Text.Utf8

/-!
# 32-byte hashes

Transactions, blocks and the nodes of Merkle trees are named by the SHA-256
digest of a SHA-256 digest.  On the wire such a hash travels in the order of the
digest; people read it with its bytes reversed.
-/

namespace LightPeer

/-- A 32-byte hash in wire order. -/
structure Hash256 where
  bytes : Bytes
  length_bytes : bytes.length = 32

namespace Hash256

instance : DecidableEq Hash256 := fun a b =>
  if h : a.bytes = b.bytes then isTrue (by cases a; cases b; cases h; rfl)
  else isFalse fun hab => h (hab ▸ rfl)

/-- The hash of 32 zero bytes. -/
def zero : Hash256 := ⟨Bytes.replicate 32 0, by simp⟩

instance : Inhabited Hash256 := ⟨zero⟩

/-- The hash with these bytes, if there are 32 of them. -/
def ofBytes? (bs : Bytes) : Option Hash256 :=
  if h : bs.length = 32 then some ⟨bs, h⟩ else none

/-- SHA-256 applied twice. -/
def digest (data : Bytes) : Hash256 := ⟨sha256 (sha256 data), by simp⟩

/-- The hash of a node of a Merkle tree, from those of its children. -/
def pair (left right : Hash256) : Hash256 := digest (left.bytes ++ right.bytes)

/-- The same bytes, last one first. -/
def reversed (h : Hash256) : Hash256 := ⟨h.bytes.reverse, by simp [h.length_bytes]⟩

/-- The bytes in wire order as hexadecimal text. -/
def wireText (h : Hash256) : String := Hex.encode h.bytes

/-- The text people read: the bytes reversed. -/
def display (h : Hash256) : String := Hex.encode h.bytes.reverse

/-- The displayed text with the name of the type around it. -/
def debugText (h : Hash256) : String := "Sha256Hash(" ++ h.display ++ ")"

/-- Reads a displayed text. -/
def ofDisplay (text : String) : Except Hex.Error Hash256 :=
  match Hex.decodeField 32 (Utf8.encode text) with
  | .error e => .error e
  | .ok bs =>
    match ofBytes? bs.reverse with
    | none => .error .invalidStringLength
    | some h => .ok h

theorem reversed_reversed (h : Hash256) : h.reversed.reversed = h := by
  cases h; simp [reversed]

end Hash256

/-- The first four bytes of the double digest, which guard the payload of a frame. -/
def checksum (data : Bytes) : Bytes := (Hash256.digest data).bytes.take 4

@[simp] theorem length_checksum (data : Bytes) : (checksum data).length = 4 := by
  simp [checksum, Hash256.length_bytes]

end LightPeer
