/-!
# Chance

The number in an introduction and the tweak of a filter are drawn by chance.  The
draws come from a state that is given from outside, each step of which is a walk
over all 64-bit words followed by a mixing of the bits.
-/

namespace LightPeer

/-- A source of random words. -/
structure Dice where
  state : UInt64
  deriving DecidableEq, Repr, Inhabited

namespace Dice

/-- Mixes the bits of a word. -/
def mix (z : UInt64) : UInt64 :=
  let z := (z ^^^ (z >>> 30)) * 0xBF58476D1CE4E5B9
  let z := (z ^^^ (z >>> 27)) * 0x94D049BB133111EB
  z ^^^ (z >>> 31)

/-- A random word, and the source behind it. -/
def roll (d : Dice) : UInt64 × Dice :=
  let state := d.state + 0x9E3779B97F4A7C15
  (mix state, ⟨state⟩)

end Dice

end LightPeer
