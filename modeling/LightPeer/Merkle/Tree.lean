import LightPeer.Merkle.Shape

/-!
# The Merkle tree of a block, and the proofs taken from it

The root of a block is computed from the hashes of its transactions level by
level: neighbours are paired, the last node of an odd level with itself, until one
hash is left.  `rootOf?` does this.

A `Tree` is the same thing seen from the root, with marks on its leaves.  A proof
that the marked transactions belong to the block goes down to them and gives the
hash of every other subtree on its way: `flags` and `hashes` are that proof, and
`packFlags` puts the flags into bytes.
-/

namespace LightPeer.Merkle

/-- The level above a level. -/
def levelAbove : List Hash256 → List Hash256
  | left :: right :: rest => Hash256.pair left right :: levelAbove rest
  | [last] => [Hash256.pair last last]
  | [] => []

/-- A node without a neighbour has a parent of its own, hence the half that is rounded up. -/
theorem length_levelAbove (level : List Hash256) :
    (levelAbove level).length = (level.length + 1) / 2 := by
  fun_induction levelAbove level with
  | case1 left right rest ih => simp only [List.length_cons, ih]; omega
  | case2 => simp
  | case3 => simp

/-- The root over a level.  A level without nodes has none. -/
def rootOf? : List Hash256 → Option Hash256
  | [] => none
  | [root] => some root
  | left :: right :: rest => rootOf? (levelAbove (left :: right :: rest))
termination_by level => level.length
decreasing_by simp only [length_levelAbove, List.length_cons]; omega

/-- A tree with marks on its leaves. -/
inductive Tree
  | leaf (hash : Hash256) (marked : Bool)
  | fork (left right : Tree)
  /-- A node without a right child. -/
  | lone (child : Tree)
  deriving DecidableEq

namespace Tree

/-- The tree over some leaves, `depth` levels above them.  The left subtree of a node
is as full as its depth allows before there is a right one. -/
def ofLeaves : Nat → List (Hash256 × Bool) → Tree
  | 0, [] => .leaf .zero false
  | 0, (hash, marked) :: _ => .leaf hash marked
  | depth + 1, leaves =>
    if leaves.length ≤ 2 ^ depth then .lone (ofLeaves depth leaves)
    else .fork (ofLeaves depth (leaves.take (2 ^ depth))) (ofLeaves depth (leaves.drop (2 ^ depth)))

/-- The leaves with their marks, left to right. -/
def leaves : Tree → List (Hash256 × Bool)
  | .leaf hash marked => [(hash, marked)]
  | .fork left right => left.leaves ++ right.leaves
  | .lone child => child.leaves

/-- The hash of a tree's root.  An only child is paired with itself. -/
def hash : Tree → Hash256
  | .leaf hash _ => hash
  | .fork left right => Hash256.pair left.hash right.hash
  | .lone child => Hash256.pair child.hash child.hash

/-- Whether any leaf is marked. -/
def hasMarked : Tree → Bool
  | .leaf _ marked => marked
  | .fork left right => left.hasMarked || right.hasMarked
  | .lone child => child.hasMarked

/-- The hashes of the marked leaves, left to right. -/
def marked (t : Tree) : List Hash256 :=
  t.leaves.filterMap fun leaf => if leaf.2 then some leaf.1 else none

/-- A tree that is deep enough holds its leaves in order. -/
theorem leaves_ofLeaves {depth : Nat} {ls : List (Hash256 × Bool)} (nonempty : ls ≠ [])
    (fit : ls.length ≤ 2 ^ depth) : (ofLeaves depth ls).leaves = ls := by
  induction depth generalizing ls with
  | zero =>
    match ls, nonempty with
    | [l], _ => rfl
    | _ :: _ :: _, _ => simp at fit
  | succ depth ih =>
    rw [ofLeaves]
    split
    · next half => exact ih nonempty half
    · next more =>
      have hpow : 2 ^ (depth + 1) = 2 ^ depth + 2 ^ depth := by rw [Nat.pow_succ]; omega
      have hpos : 0 < 2 ^ depth := Nat.pow_pos (by decide)
      have hleft : ls.take (2 ^ depth) ≠ [] := by
        intro h
        have := congrArg List.length h
        simp only [List.length_take, List.length_nil] at this
        omega
      have hright : ls.drop (2 ^ depth) ≠ [] := by
        intro h
        have := congrArg List.length h
        simp only [List.length_drop, List.length_nil] at this
        omega
      rw [leaves, ih hleft (by rw [List.length_take]; omega),
        ih hright (by rw [List.length_drop]; omega), List.take_append_drop]

/-- The flags of the proof for the marked leaves, each node before its children. -/
def flags : Tree → List Bool
  | .leaf _ marked => [marked]
  | .fork left right =>
    if left.hasMarked || right.hasMarked then true :: (left.flags ++ right.flags) else [false]
  | .lone child => if child.hasMarked then true :: child.flags else [false]

/-- The hashes of the proof for the marked leaves, left to right. -/
def hashes : Tree → List Hash256
  | .leaf hash _ => [hash]
  | .fork left right =>
    if left.hasMarked || right.hasMarked then left.hashes ++ right.hashes
    else [(Tree.fork left right).hash]
  | .lone child => if child.hasMarked then child.hashes else [(Tree.lone child).hash]

/-- Whether the proof goes through a node whose two children have one hash. -/
def hasTwins : Tree → Bool
  | .leaf .. => false
  | .fork left right =>
    (left.hasMarked || right.hasMarked) &&
      (left.hasTwins || right.hasTwins || left.hash = right.hash)
  | .lone child => child.hasTwins

end Tree

/-- Up to eight flags as a byte, the first one as the least significant bit. -/
def packByte (flags : List Bool) : UInt8 :=
  UInt8.ofNat (flags.foldr (fun flag byte => flag.toNat + 2 * byte) 0)

/-- Flags as bytes, eight to a byte; what is missing in the last one is not set. -/
def packFlags (flags : List Bool) : Bytes :=
  if _some : flags = [] then [] else packByte (flags.take 8) :: packFlags (flags.drop 8)
termination_by flags.length
decreasing_by
  have := List.length_pos_iff.mpr _some
  simp only [List.length_drop]
  omega

end LightPeer.Merkle
