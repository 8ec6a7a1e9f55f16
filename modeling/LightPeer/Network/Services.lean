import LightPeer.Power
import LightPeer.Text.Blank
import LightPeer.Text.Quoted

/-!
# Services of a peer

A peer advertises what it offers as a set of bits, some of which have names.  In
text the names of the bits that are set stand in a row between bars, the bits
without a name last as one hexadecimal number.
-/

namespace LightPeer

/-- A set of service bits. -/
structure Services where
  bits : UInt64
  deriving DecidableEq, Repr, Inhabited

namespace Services

/-- No service. -/
def none : Services := ⟨0⟩

/-- Filtering of transactions for a light client. -/
def bloom : Services := ⟨0x04⟩

/-- The named bits in order. -/
def named : List (String × Services) :=
  [("NODE_NETWORK", ⟨0x01⟩), ("NODE_GETUTXO", ⟨0x02⟩), ("NODE_BLOOM", bloom),
   ("NODE_WITNESS", ⟨0x08⟩), ("NODE_XTHIN", ⟨0x10⟩), ("NODE_NETWORK_LIMITED", ⟨0x400⟩)]

/-- Whether all bits of the second set are in the first. -/
def contains (s t : Services) : Bool := s.bits &&& t.bits = t.bits

/-- The bits of either set. -/
def union (s t : Services) : Services := ⟨s.bits ||| t.bits⟩

/-- The names of the bits that are set, in order. -/
def names (s : Services) : List String :=
  (named.filter fun flag => s.contains flag.2).map Prod.fst

/-- The bits that are set and have no name. -/
def unnamed (s : Services) : UInt64 :=
  named.foldl (fun bits flag => bits &&& ~~~ flag.2.bits) s.bits

/-- The set as text. -/
def text (s : Services) : String :=
  let parts := s.names ++ if s.unnamed = 0 then [] else ["0x" ++ Text.hexDigits s.unnamed.toNat]
  String.intercalate " | " parts

/-- The value of a digit of base sixteen. -/
def hexValue? (c : Char) : Option Nat :=
  if '0' ≤ c ∧ c ≤ '9' then some (c.toNat - 48)
  else if 'a' ≤ c ∧ c ≤ 'f' then some (c.toNat - 87)
  else if 'A' ≤ c ∧ c ≤ 'F' then some (c.toNat - 55)
  else Option.none

/-- The 64-bit number written by hexadecimal digits, a plus sign before them allowed. -/
def hexNumber? (cs : List Char) : Option UInt64 :=
  let digits := if cs.head? = some '+' then cs.drop 1 else cs
  if digits.isEmpty then Option.none
  else
    match digits.mapM hexValue? with
    | Option.none => Option.none
    | some values =>
      let n := values.foldl (fun n v => 16 * n + v) 0
      if n < 2 ^ 64 then some (UInt64.ofNat n) else Option.none

/-- The bits that one part of a text stands for. -/
def ofPart? (part : List Char) : Option Services :=
  if ['0', 'x'].isPrefixOf part then (hexNumber? (part.drop 2)).map Services.mk
  else (named.find? fun flag => flag.1.toList = part).map Prod.snd

/-- Reads a set from text.  Blanks around the parts do not matter, and a blank text is
the empty set. -/
def ofText? (text : String) : Option Services :=
  let cs := text.toList
  if (Text.trim cs).isEmpty then some none
  else
    match ((Text.splitAll '|' cs).map Text.trim).mapM ofPart? with
    | Option.none => Option.none
    | some parts => some (parts.foldl union none)

end Services

end LightPeer
