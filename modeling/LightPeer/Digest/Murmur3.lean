import LightPeer.Bytes.Basic

/-!
# The 32-bit Murmur3 hash

A seed is mixed with the data four bytes at a time, then with the one to three
bytes left over, then with the length, and finally scrambled.
-/

namespace LightPeer.Murmur3

/-- Rotation of a word to the left by `n` bits, `0 < n < 32`. -/
def rotateLeft (x n : UInt32) : UInt32 := (x <<< n) ||| (x >>> (32 - n))

/-- What a word of data contributes. -/
def scramble (k : UInt32) : UInt32 :=
  rotateLeft (k * 0xcc9e2d51) 15 * 0x1b873593

/-- The state after a whole word of data. -/
def mix (h k : UInt32) : UInt32 :=
  rotateLeft (h ^^^ scramble k) 13 * 5 + 0xe6546b64

/-- The state after all data: whole words, least significant byte first, then the
bytes left over as one short word. -/
def absorb (h : UInt32) : Bytes → UInt32
  | a :: b :: c :: d :: rest =>
    let word := a.toUInt32 ||| b.toUInt32 <<< 8 ||| c.toUInt32 <<< 16 ||| d.toUInt32 <<< 24
    absorb (mix h word) rest
  | [a, b, c] => h ^^^ scramble (a.toUInt32 ||| b.toUInt32 <<< 8 ||| c.toUInt32 <<< 16)
  | [a, b] => h ^^^ scramble (a.toUInt32 ||| b.toUInt32 <<< 8)
  | [a] => h ^^^ scramble a.toUInt32
  | [] => h

/-- The final scrambling, so that every bit of the state reaches every bit of the result. -/
def finish (h : UInt32) : UInt32 :=
  let h := (h ^^^ (h >>> 16)) * 0x85ebca6b
  let h := (h ^^^ (h >>> 13)) * 0xc2b2ae35
  h ^^^ (h >>> 16)

end Murmur3

/-- The Murmur3 hash of some data under a seed. -/
def murmur3 (data : Bytes) (seed : UInt32) : UInt32 :=
  Murmur3.finish (Murmur3.absorb seed data ^^^ UInt32.ofNat data.length)

end LightPeer
