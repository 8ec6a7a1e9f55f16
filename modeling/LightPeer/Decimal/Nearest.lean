import LightPeer.Power

/-!
# The double nearest to a quotient

A double is a whole number of at most 53 bits times a power of two.  A quotient is
brought to such a form exactly, and rounded once: to the nearer neighbour, and to
the even one from the middle.
-/

namespace LightPeer.Decimal

/-- The whole number nearest to a quotient; from the middle, the even one. -/
def roundQuotient (num den : Nat) : Nat :=
  let q := num / den
  let r := num % den
  if den < 2 * r || (2 * r = den && q % 2 = 1) then q + 1 else q

/-- The quotient `num / den` times a power of two, as a quotient. -/
def scaled (num den : Nat) (power : Int) : Nat × Nat :=
  if 0 ≤ power then (num * 2 ^ power.toNat, den) else (num, den * 2 ^ (-power).toNat)

/-- The power of two that is the largest one not above a positive quotient. -/
def binaryOrder (num den : Nat) : Int :=
  let guess : Int := num.log2 - den.log2
  let (n, d) := scaled num den (-guess)
  if d ≤ n then guess else guess - 1

/-- The bits of infinity, above those of all other doubles without a sign. -/
def infinityBits : Nat := 0x7FF0000000000000

/-- The double nearest to a quotient.  Its bits are the whole number, and above them the number of
steps that its power of two is above the lowest; a whole number of 53 bits is one step by itself. -/
def ofQuotient (num den : Nat) : Float :=
  if num = 0 then 0
  else
    let unit := max (-1074) (binaryOrder num den - 52)
    let (n, d) := scaled num den (-unit)
    let bits := (unit + 1074).toNat * 2 ^ 52 + roundQuotient n d
    Float.ofBits (UInt64.ofNat (min bits infinityBits))

/-- The double nearest to `m * 10 ^ e`. -/
def nearest (m : Nat) (e : Int) : Float :=
  let order := e + (Nat.toDigits 10 m).length
  if m = 0 || order < -330 then 0
  else if 310 < order then 1.0 / 0.0
  else if 0 ≤ e then ofQuotient (m * 10 ^ e.toNat) 1
  else ofQuotient m (10 ^ (-e).toNat)

end LightPeer.Decimal
