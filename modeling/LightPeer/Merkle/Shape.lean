import LightPeer.Digest.Hash256

/-!
# The shape of a Merkle tree

The leaves of the tree of a block are its transactions, in order.  Every level
above has half as many nodes as the one below, rounded up, until one is left.
Levels are counted from the root, which is level 0, down to the leaves.
-/

namespace LightPeer.Merkle

/-- The least number from `level` on, but no more than `fuel` above it, whose power
of two is not below `total`. -/
def heightFrom (total : Nat) : Nat → Nat → Nat
  | 0, level => level
  | fuel + 1, level => if 2 ^ level < total then heightFrom total fuel (level + 1) else level

/-- The level of the leaves: the binary logarithm of their number, rounded up. -/
def height (total : UInt32) : Nat := heightFrom total.toNat 32 0

/-- The number of nodes at a level: the number of leaves divided by the leaves below
one node, rounded up, in 64-bit arithmetic. -/
def width (total : UInt32) (height level : Nat) : UInt32 :=
  let shift := UInt64.ofNat (height - level)
  ((total.toUInt64 + (1 <<< shift) - 1) >>> shift).toUInt32

/-- A place in a tree: a level and the position from the left in it. -/
structure Node where
  level : Nat
  index : UInt32
  deriving DecidableEq, Repr

namespace Node

/-- The one node of level 0. -/
def root : Node := ⟨0, 0⟩

/-- The left child, which every node above the leaves has. -/
def left (n : Node) : Node := ⟨n.level + 1, n.index * 2⟩

/-- The place of the right child. -/
def right (n : Node) : Node := ⟨n.level + 1, n.index * 2 + 1⟩

/-- Whether the right child exists: it does not below the last node of a level if the
level under it has an odd number of nodes. -/
def hasRight (total : UInt32) (height : Nat) (n : Node) : Bool :=
  n.right.index < width total height n.right.level

/-- The children that exist, left one first. -/
def children (total : UInt32) (height : Nat) (n : Node) : List Node :=
  if n.hasRight total height then [n.left, n.right] else [n.left]

end Node

end LightPeer.Merkle
