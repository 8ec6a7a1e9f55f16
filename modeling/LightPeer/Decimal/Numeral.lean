import LightPeer.Decimal.Nearest

/-!
# Numerals

How a person writes a number: an optional sign, digits with an optional point
among them, and an optional power of ten; or one of the words for infinity and for
no number, in any case.
-/

namespace LightPeer.Decimal

/-- The value of a row of digits. -/
def ofDigits (digits : List Nat) : Nat := digits.foldl (fun n d => 10 * n + d) 0

/-- The digits in front of a text, and what follows them. -/
def digitsOf (cs : List Char) : List Nat × List Char :=
  ((cs.takeWhile Char.isDigit).map fun c => c.toNat - 48, cs.dropWhile Char.isDigit)

/-- A sign in front of a text: whether it is a minus, and what follows. -/
def signOf : List Char → Bool × List Char
  | '-' :: cs => (true, cs)
  | '+' :: cs => (false, cs)
  | cs => (false, cs)

/-- The power of ten at the end of a numeral; there is none at the end of the text. -/
def exponentOf? : List Char → Option Int
  | [] => some 0
  | c :: cs =>
    if c = 'e' ∨ c = 'E' then
      let (negative, cs) := signOf cs
      let (digits, rest) := digitsOf cs
      if digits.isEmpty || ! rest.isEmpty then none
      else some (if negative then -(ofDigits digits : Int) else ofDigits digits)
    else none

/-- The number written by digits, without a sign. -/
def magnitude? (cs : List Char) : Option Float :=
  let (whole, rest) := digitsOf cs
  let (fraction, rest) :=
    match rest with
    | '.' :: rest => digitsOf rest
    | rest => ([], rest)
  if whole.isEmpty && fraction.isEmpty then none
  else
    match exponentOf? rest with
    | none => none
    | some e => some (nearest (ofDigits (whole ++ fraction)) (e - fraction.length))

/-- The number that a text without a sign stands for. -/
def unsigned? (cs : List Char) : Option Float :=
  let word := String.ofList (cs.map Char.toLower)
  if word = "inf" || word = "infinity" then some (1.0 / 0.0)
  else if word = "nan" then some (0.0 / 0.0)
  else magnitude? cs

/-- The number that a text stands for. -/
def ofText? (text : String) : Option Float :=
  let (negative, cs) := signOf text.toList
  (unsigned? cs).map fun f => if negative then -f else f

end LightPeer.Decimal
