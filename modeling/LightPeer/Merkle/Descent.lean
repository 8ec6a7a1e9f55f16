import LightPeer.Merkle.Proof

/-!
# Proofs read by descent

What a proof says, as a recursion over the tree: a node takes a flag, and is either
replaced by a hash or made of its children.  The recursion gives the part of the
tree that the proof shows; its hash and its matched leaves are functions of that
part.  Positions and widths are plain numbers here, so nothing can overflow.

`ofDescent` puts this together with the checks on what a proof leaves over.
-/

namespace LightPeer.Merkle

/-- The part of a tree that a proof shows. -/
inductive Shown
  /-- A subtree, or a leaf, of which only the hash is shown. -/
  | given (hash : Hash256) (matched : Bool)
  /-- A node with both of its children; the right child has this level and position. -/
  | fork (level index : Nat) (left right : Shown)
  | lone (child : Shown)
  deriving DecidableEq

/-- What is left of a proof. -/
structure Supply where
  flags : List Bool
  hashes : List Hash256
  deriving DecidableEq

/-- The binary logarithm of a number, rounded up. -/
def ceilLog2 (n : Nat) : Nat := if n ≤ 1 then 0 else Nat.log2 (n - 1) + 1

/-- How many nodes it takes to have `total` leaves below them, `2 ^ depth` under each. -/
def widthAbove (total depth : Nat) : Nat := (total + 2 ^ depth - 1) / 2 ^ depth

/-- The hash that a node takes. -/
def takeHash (matched : Bool) (flags : List Bool) : List Hash256 → Except Error (Shown × Supply)
  | [] => .error .hashesExhausted
  | hash :: hashes => .ok (.given hash matched, ⟨flags, hashes⟩)

/-- The part of the tree below a node, `depth` levels above the leaves. -/
def descend (total : Nat) : Nat → Nat → Nat → Supply → Except Error (Shown × Supply)
  | _, _, _, ⟨[], _⟩ => .error .flagsExhausted
  | 0, _, _, ⟨flag :: flags, hashes⟩ => takeHash flag flags hashes
  | _ + 1, _, _, ⟨false :: flags, hashes⟩ => takeHash false flags hashes
  | depth + 1, level, index, ⟨true :: flags, hashes⟩ => do
    let (left, supply) ← descend total depth (level + 1) (2 * index) ⟨flags, hashes⟩
    if 2 * index + 1 < widthAbove total depth then
      let (right, supply) ← descend total depth (level + 1) (2 * index + 1) supply
      return (.fork (level + 1) (2 * index + 1) left right, supply)
    else return (.lone left, supply)

namespace Shown

/-- The hash of the part.  Two children of one hash are refused, those of deeper and
earlier nodes first. -/
def root : Shown → Except Error Hash256
  | .given hash _ => .ok hash
  | .fork level index left right => do
    let leftHash ← left.root
    let rightHash ← right.root
    if leftHash = rightHash then .error (.duplicateSiblings ⟨level, UInt32.ofNat index⟩)
    else return Hash256.pair leftHash rightHash
  | .lone child => do
    let hash ← child.root
    return Hash256.pair hash hash

/-- The matched leaves, left to right. -/
def matched : Shown → List Hash256
  | .given hash true => [hash]
  | .given _ false => []
  | .fork _ _ left right => left.matched ++ right.matched
  | .lone child => child.matched

end Shown

/-- What a proof for a block of `total` transactions establishes. -/
def ofDescent (hashes : List Hash256) (total : UInt32) (flags : List Bool) :
    Except Error PartialTree := do
  if total = 0 then throw .noTransactions
  if total.toNat < hashes.length then throw (.tooManyHashes hashes.length total)
  let height := ceilLog2 total.toNat
  let (shown, supply) ← descend total.toNat height 0 0 ⟨flags, hashes⟩
  if supply.hashes ≠ [] then throw (.unusedHashes supply.hashes.length)
  let used := flags.length - supply.flags.length
  if supply.flags.any id || (8 - used % 8) % 8 < supply.flags.length then throw .unusedFlags
  let root ← shown.root
  return ⟨total, height, root, shown.matched⟩

end LightPeer.Merkle
