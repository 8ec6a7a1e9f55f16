/-!
# Rates of false positives

A filter aims at a rate of false positives, which is a double.  A rate is shown as it
was set, and so the bits of the double are kept: many patterns of bits stand for no
number, and `value` does not tell them apart.
-/

namespace LightPeer

/-- A rate of false positives, whether or not a filter can have it. -/
structure Rate where
  /-- The bits of the double that was set. -/
  bits : UInt64
  deriving DecidableEq, Repr, Inhabited

namespace Rate

/-- The rate set by a double. -/
def ofFloat (f : Float) : Rate := ⟨f.toBits⟩

/-- The double, to reckon with. -/
def value (r : Rate) : Float := Float.ofBits r.bits

end Rate

end LightPeer
