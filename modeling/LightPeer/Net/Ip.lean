import LightPeer.Bytes.Basic
import LightPeer.Text.Quoted

/-!
# IP addresses and their texts

A version 4 address is written as four decimal numbers.  A version 6 address is
written as eight groups of hexadecimal digits; the longest run of two or more
zero groups, the first of them if there are several, is left out and marked by
two colons.  An address of version 6 that embeds one of version 4 ends in the
text of that one.

The reader takes every such text and the usual variants: groups with leading
zeros and of either case, a run marked anywhere, an embedded address behind any
groups.
-/

namespace LightPeer

/-- An address of version 4, as a 32-bit number. -/
structure IPv4 where
  value : UInt32
  deriving DecidableEq, Repr, Inhabited

namespace IPv4

/-- The four bytes of an address. -/
def bytes (a : IPv4) : Bytes := Bytes.ofNat .big 4 a.value.toNat

/-- The address with these four bytes. -/
def ofBytes (bs : Bytes) : IPv4 := ⟨UInt32.ofNat (Bytes.toNat .big bs)⟩

/-- The text of an address. -/
def text (a : IPv4) : String :=
  String.intercalate "." (a.bytes.map fun b => toString b.toNat)

end IPv4

/-- An address of version 6, as its sixteen bytes. -/
structure IPv6 where
  bytes : Bytes
  length_bytes : bytes.length = 16

namespace IPv6

instance : DecidableEq IPv6 := fun a b =>
  if h : a.bytes = b.bytes then isTrue (by cases a; cases b; cases h; rfl)
  else isFalse fun hab => h (hab ▸ rfl)

/-- The address of sixteen zero bytes. -/
def unspecified : IPv6 := ⟨Bytes.replicate 16 0, by simp⟩

instance : Inhabited IPv6 := ⟨unspecified⟩

/-- The address with these bytes, if there are sixteen of them. -/
def ofBytes? (bs : Bytes) : Option IPv6 :=
  if h : bs.length = 16 then some ⟨bs, h⟩ else none

/-- What comes before the bytes of an embedded address. -/
def mappedLead : Bytes := Bytes.replicate 10 0 ++ [0xFF, 0xFF]

/-- The address that embeds an address of version 4. -/
def ofIPv4 (a : IPv4) : IPv6 :=
  ⟨mappedLead ++ a.bytes, by simp [mappedLead, IPv4.bytes]⟩

/-- The embedded address of version 4. -/
def toIPv4? (a : IPv6) : Option IPv4 :=
  if a.bytes.take 12 = mappedLead then some (IPv4.ofBytes (a.bytes.drop 12)) else none

/-- Pairs of bytes as numbers, high byte first. -/
def groupsOf : Bytes → List Nat
  | high :: low :: rest => (256 * high.toNat + low.toNat) :: groupsOf rest
  | _ => []

/-- The eight groups. -/
def groups (a : IPv6) : List Nat := groupsOf a.bytes

/-- The address with these groups; missing ones are zero. -/
def ofGroups (groups : List Nat) : IPv6 :=
  ⟨((groups ++ List.replicate 8 0).take 8).flatMap (Bytes.ofNat .big 2), by
    have h : ∀ l : List Nat, (l.flatMap (Bytes.ofNat .big 2)).length = 2 * l.length := by
      intro l
      induction l with
      | nil => rfl
      | cons n l ih => simp [ih, Nat.mul_add, Nat.add_comm]
    rw [h]
    simp⟩

/-- The start and length of the longest run of zeros, the first of several; `run` is
the length of the run that ends before `i`. -/
def longestRun (i run : Nat) (best : Nat × Nat) : List Nat → Nat × Nat
  | [] => best
  | g :: gs =>
    if g = 0 then
      let run := run + 1
      longestRun (i + 1) run (if best.2 < run then (i + 1 - run, run) else best) gs
    else longestRun (i + 1) 0 best gs

/-- Groups between colons. -/
def joinGroups (groups : List Nat) : String :=
  String.intercalate ":" (groups.map Text.hexDigits)

/-- The text of an address. -/
def text (a : IPv6) : String :=
  match a.toIPv4? with
  | some v4 => "::ffff:" ++ v4.text
  | none =>
    let groups := a.groups
    let run := longestRun 0 0 (0, 0) groups
    if 1 < run.2 then
      joinGroups (groups.take run.1) ++ "::" ++ joinGroups (groups.drop (run.1 + run.2))
    else joinGroups groups

end IPv6

/-- An address of either version. -/
inductive Ip
  | v4 (address : IPv4)
  | v6 (address : IPv6)
  deriving DecidableEq, Inhabited

/-- The text of an address. -/
def Ip.text : Ip → String
  | .v4 a => a.text
  | .v6 a => a.text

namespace Ip

/-- The value of a digit in a base up to sixteen. -/
def digitValue? (base : Nat) (c : Char) : Option Nat :=
  let v :=
    if '0' ≤ c ∧ c ≤ '9' then c.toNat - 48
    else if 'a' ≤ c ∧ c ≤ 'f' then c.toNat - 87
    else if 'A' ≤ c ∧ c ≤ 'F' then c.toNat - 55
    else base
  if v < base then some v else none

/-- The number in front of a text, all digits that follow each other taken.  As all readers here, it
gives what it has read and the rest of the text. -/
def readDigits (base : Nat) : Nat → Nat → List Char → Nat × Nat × List Char
  | count, n, [] => (count, n, [])
  | count, n, c :: cs =>
    match digitValue? base c with
    | none => (count, n, c :: cs)
    | some v => readDigits base (count + 1) (base * n + v) cs

/-- A number below `limit` of at least one and at most `maxDigits` digits. -/
def readNumber? (base limit maxDigits : Nat) (leadingZero : Bool) (cs : List Char) :
    Option (Nat × List Char) :=
  let (count, n, rest) := readDigits base 0 0 cs
  if count = 0 || maxDigits < count || limit ≤ n then none
  else if ! leadingZero && cs.head? = some '0' && 1 < count then none
  else some (n, rest)

/-- One character. -/
def readChar? (c : Char) : List Char → Option (List Char)
  | [] => none
  | d :: cs => if d = c then some cs else none

/-- Four numbers up to 255 without leading zeros, dots between them. -/
def readV4? (cs : List Char) : Option (IPv4 × List Char) := do
  let (a, cs) ← readNumber? 10 256 3 false cs
  let cs ← readChar? '.' cs
  let (b, cs) ← readNumber? 10 256 3 false cs
  let cs ← readChar? '.' cs
  let (c, cs) ← readNumber? 10 256 3 false cs
  let cs ← readChar? '.' cs
  let (d, cs) ← readNumber? 10 256 3 false cs
  return (IPv4.ofBytes [UInt8.ofNat a, UInt8.ofNat b, UInt8.ofNat c, UInt8.ofNat d], cs)

/-- What the reading of groups gives: the groups, whether an embedded address ended
them, and the rest of the text. -/
structure Groups where
  groups : List Nat
  embedded : Bool
  rest : List Char

/-- Up to `room` groups between colons.  While there is room for two, an address of
version 4 may stand for them and ends the reading. -/
def readGroups (first : Bool) : Nat → List Char → Groups
  | 0, cs => ⟨[], false, cs⟩
  | room + 1, cs =>
    let start := if first then some cs else readChar? ':' cs
    let v4 := if room = 0 then none else start.bind readV4?
    match v4 with
    | some (a, rest) => ⟨IPv6.groupsOf a.bytes, true, rest⟩
    | none =>
      match start.bind (readNumber? 16 65536 4 true) with
      | none => ⟨[], false, cs⟩
      | some (g, rest) =>
        let more := readGroups false room rest
        { more with groups := g :: more.groups }

/-- Eight groups, or fewer with two colons where zeros are left out. -/
def readV6? (cs : List Char) : Option (IPv6 × List Char) :=
  let head := readGroups true 8 cs
  if head.groups.length = 8 then some (IPv6.ofGroups head.groups, head.rest)
  else if head.embedded then none
  else
    match (readChar? ':' head.rest).bind (readChar? ':') with
    | none => none
    | some rest =>
      let tail := readGroups true (7 - head.groups.length) rest
      let zeros := List.replicate (8 - head.groups.length - tail.groups.length) 0
      some (IPv6.ofGroups (head.groups ++ zeros ++ tail.groups), tail.rest)

/-- The address of either version that is the whole text. -/
def ofText? (cs : List Char) : Option Ip :=
  match readV4? cs with
  | some (a, rest) => if rest.isEmpty then some (.v4 a) else none
  | none =>
    match readV6? cs with
    | some (a, rest) => if rest.isEmpty then some (.v6 a) else none
    | none => none

end Ip

end LightPeer
