import LightPeer.Power

/-!
# Shortest decimal text

Of all decimals that are read back as a given double, those with the fewest digits
are the shortest, and of these the nearest is written; from the middle, the larger
one.  It is written without a power of ten, and without a point if it is whole.
-/

namespace LightPeer.Decimal

/-- The reals that are rounded to one positive double, all of them over the same
denominator; the ends belong to them if `closed`. -/
structure Interval where
  low : Nat
  value : Nat
  high : Nat
  den : Nat
  closed : Bool

/-- The interval of the positive finite double with these bits. -/
def Interval.ofBits (bits : Nat) : Interval :=
  let fraction : Nat := bits % 2 ^ 52
  let exponent : Nat := bits / 2 ^ 52 % 2 ^ 11
  let m := if exponent = 0 then fraction else 2 ^ 52 + fraction
  let power : Int := (max exponent 1 : Nat) - 1077
  let below := if fraction = 0 && 1 < exponent then 1 else 2
  let unit := 2 ^ power.toNat
  ⟨(4 * m - below) * unit, 4 * m * unit, (4 * m + 2) * unit, 2 ^ (-power).toNat, m % 2 = 0⟩

/-- Whether `c * step` over the denominator lies in the interval, whose numbers are all
taken `times` as large. -/
def Interval.holds (i : Interval) (times step c : Nat) : Bool :=
  let x := c * step
  if i.closed then i.low * times ≤ x && x ≤ i.high * times
  else i.low * times < x && x < i.high * times

/-- The nearest multiple of `10 ^ e` that lies in the interval, if one of the value's two
neighbours among them does. -/
def Interval.multiple? (i : Interval) (e : Int) : Option Nat :=
  let times := 10 ^ (-e).toNat
  let step := i.den * 10 ^ e.toNat
  let value := i.value * times
  let c := value / step
  match i.holds times step c, i.holds times step (c + 1) with
  | true, true => some (if value - c * step < (c + 1) * step - value then c else c + 1)
  | true, false => some c
  | false, true => some (c + 1)
  | false, false => none

/-- The power of ten above a positive quotient, or the one next to it. -/
def decimalOrder (num den : Nat) : Int :=
  if den ≤ num then (Nat.toDigits 10 (num / den)).length
  else 1 - ((Nat.toDigits 10 (den / num)).length : Int)

/-- The shortest decimal in an interval, as digits and a power of ten; the digits are
tried one more at a time. -/
def Interval.shortest (i : Interval) : Nat × Int :=
  let order := decimalOrder i.value i.den
  let found := (List.range 18).findSome? fun (n : Nat) =>
    let e := order - (n + 1 : Nat)
    (i.multiple? e).map fun c => (c, e)
  found.getD (0, 0)

/-- Digits and a power of ten without zeros at the end of the digits. -/
def trimZeros : List Char → Int → List Char × Int
  | [], e => ([], e)
  | '0' :: reversed, e => trimZeros reversed (e + 1)
  | reversed, e => (reversed.reverse, e)

/-- The text of `digits * 10 ^ e`. -/
def positional (digits : List Char) (e : Int) : List Char :=
  let point := digits.length + e
  if 0 ≤ e then digits ++ List.replicate e.toNat '0'
  else if 0 < point then digits.take point.toNat ++ '.' :: digits.drop point.toNat
  else '0' :: '.' :: (List.replicate (-point).toNat '0' ++ digits)

/-- The text of a double without its sign. -/
def magnitudeText (bits : Nat) : String :=
  if 0x7FF0000000000000 < bits then "NaN"
  else if bits = 0x7FF0000000000000 then "inf"
  else if bits = 0 then "0"
  else
    let (c, e) := (Interval.ofBits bits).shortest
    let (digits, e) := trimZeros (Nat.toDigits 10 c).reverse e
    String.ofList (positional digits e)

/-- The text of a double. -/
def text (f : Float) : String :=
  let bits := f.toBits.toNat
  let size := bits % 2 ^ 63
  if 2 ^ 63 ≤ bits && size ≤ 0x7FF0000000000000 then "-" ++ magnitudeText size
  else magnitudeText size

end LightPeer.Decimal
