import LightPeer.Proofs.Merkle.Levels
import LightPeer.Proofs.Merkle.Walk

/-!
# Soundness of Merkle proofs

A proof comes from a peer, who is free to choose its flags and hashes.  If the tree
that is rebuilt from it has the root of a block, then the two trees have one shape,
and they can be compared node by node from the root down.  At every node that both
of them hash, the pairs are the same, unless two different pairs have one hash.  So
the matched hashes are leaves of the block, and in their order, or else there is a
node at which the two trees have such a collision.

`matched_of_verifyRoot` is this fact about `build`.  Nothing is assumed of the hash
function.
-/

namespace LightPeer.Merkle

/-- Two hashes that are hashed together, and the place of the node where this happens. -/
structure Joint where
  level : Nat
  index : Nat
  left : Hash256
  right : Hash256

/-- The hash of a part, whether or not it has equal siblings. -/
def Shown.hash : Shown → Hash256
  | .given hash _ => hash
  | .fork _ _ left right => Hash256.pair left.hash right.hash
  | .lone child => Hash256.pair child.hash child.hash

/-- The pairs that are hashed in a part whose topmost node stands at a place. -/
def Shown.joints (level index : Nat) : Shown → List Joint
  | .given .. => []
  | .fork _ _ left right =>
    ⟨level, index, left.hash, right.hash⟩ ::
      (left.joints (level + 1) (2 * index) ++ right.joints (level + 1) (2 * index + 1))
  | .lone child =>
    ⟨level, index, child.hash, child.hash⟩ :: child.joints (level + 1) (2 * index)

/-- The pairs that are hashed in a tree whose topmost node stands at a place. -/
def Tree.joints (level index : Nat) : Tree → List Joint
  | .leaf .. => []
  | .fork left right =>
    ⟨level, index, left.hash, right.hash⟩ ::
      (left.joints (level + 1) (2 * index) ++ right.joints (level + 1) (2 * index + 1))
  | .lone child =>
    ⟨level, index, child.hash, child.hash⟩ :: child.joints (level + 1) (2 * index)

/-- At one node two different pairs, one from each list, have the same hash. -/
def Collide (these those : List Joint) : Prop :=
  ∃ a ∈ these, ∃ b ∈ those, a.level = b.level ∧ a.index = b.index ∧
    (a.left, a.right) ≠ (b.left, b.right) ∧
    Hash256.pair a.left a.right = Hash256.pair b.left b.right

section
variable {these those others others' : List Joint} (a b : Joint)

/-- Two pairs that collide do so among more pairs, too. -/
theorem Collide.mono (h : Collide these those) (hthese : these ⊆ others)
    (hthose : those ⊆ others') : Collide others others' := by
  obtain ⟨a, ha, b, hb, hab⟩ := h
  exact ⟨a, hthese ha, b, hthose hb, hab⟩

/-- A collision below a node is one of its tree. -/
theorem Collide.cons (h : Collide these those) : Collide (a :: these) (b :: those) :=
  h.mono (List.subset_cons_self a these) (List.subset_cons_self b those)

/-- A collision on the left side of a fork is one in the whole fork. -/
theorem Collide.append_right (h : Collide these those) :
    Collide (these ++ others) (those ++ others') :=
  h.mono (List.subset_append_left these others) (List.subset_append_left those others')

/-- A collision on the right side of a fork is one in the whole fork, too. -/
theorem Collide.append_left (h : Collide these those) :
    Collide (others ++ these) (others' ++ those) :=
  h.mono (List.subset_append_right others these) (List.subset_append_right others' those)

end

/-- The root that is computed is the hash of the part, for the only other outcome is that there are
twins. -/
theorem Shown.hash_of_root {shown : Shown} {hash : Hash256} (h : shown.root = .ok hash) :
    shown.hash = hash := by
  induction shown generalizing hash with
  | given => cases h; rfl
  | fork level index left right ihl ihr =>
    rw [Shown.root] at h
    cases hl : left.root with
    | error e => rw [hl] at h; cases h
    | ok leftHash =>
      cases hr : right.root with
      | error e => rw [hl, hr] at h; cases h
      | ok rightHash =>
        simp only [hl, hr, bind, Except.bind, pure, Except.pure] at h
        split at h
        · cases h
        · cases h
          rw [Shown.hash, ihl hl, ihr hr]
  | lone child ih =>
    rw [Shown.root] at h
    cases hc : child.root with
    | error e => rw [hc] at h; cases h
    | ok childHash =>
      simp only [hc, bind, Except.bind, pure, Except.pure] at h
      cases h
      rw [Shown.hash, ih hc]

/-- A part with the hash of a tree of its shape matches leaves of the tree, in order,
unless the two collide. -/
theorem Reads.matched_sublist {total depth level index : Nat} {supply rest : Supply} {shown : Shown}
    (h : Reads total depth level index supply shown rest) {leaves : List (Hash256 × Bool)}
    (hlength : leaves.length = leavesBelow total depth index) (hpos : 0 < leaves.length)
    (hhash : shown.hash = (Tree.ofLeaves depth leaves).hash) :
    Collide (shown.joints level index) ((Tree.ofLeaves depth leaves).joints level index) ∨
      shown.matched.Sublist (leaves.map Prod.fst) := by
  induction h generalizing leaves with
  | @leaf _ _ flag _ hash _ =>
    right
    match leaves, hpos with
    | (txid, _) :: _, _ =>
      obtain rfl : hash = txid := hhash
      cases flag
      · exact List.nil_sublist _
      · exact (List.nil_sublist _).cons_cons _
  | pruned => exact Or.inr (List.nil_sublist _)
  | @fork depth level index _ _ left right _ _ hright hl hr ihl ihr =>
    have hmore := right_lt_widthAbove_iff.mp hright
    rw [Tree.ofLeaves, if_neg (by omega)] at hhash ⊢
    let lower := Tree.ofLeaves depth (leaves.take (2 ^ depth))
    let upper := Tree.ofLeaves depth (leaves.drop (2 ^ depth))
    by_cases hpair : (left.hash, right.hash) = (lower.hash, upper.hash)
    · obtain ⟨hleft, hright⟩ := Prod.mk.inj hpair
      have hlower := ihl (by rw [List.length_take, hlength, leavesBelow_left])
        (by have := Nat.two_pow_pos depth; rw [List.length_take]; omega) hleft
      have hupper := ihr (by rw [List.length_drop, hlength, leavesBelow_right])
        (by rw [List.length_drop]; omega) hright
      rcases hlower with hcollide | hlower
      · exact Or.inl (hcollide.append_right.cons _ _)
      rcases hupper with hcollide | hupper
      · exact Or.inl (hcollide.append_left.cons _ _)
      · right
        rw [← List.take_append_drop (2 ^ depth) leaves, List.map_append]
        exact hlower.append hupper
    · exact Or.inl ⟨_, List.mem_cons_self, _, List.mem_cons_self, rfl, rfl, hpair, hhash⟩
  | @lone depth level index _ _ child _ hright hc ih =>
    have hfew : leaves.length ≤ 2 ^ depth := by
      rw [hlength]
      exact Nat.not_lt.mp (mt right_lt_widthAbove_iff.mpr hright)
    rw [Tree.ofLeaves, if_pos hfew] at hhash ⊢
    let below := Tree.ofLeaves depth leaves
    by_cases hpair : (child.hash, child.hash) = (below.hash, below.hash)
    · have hchild := ih (by rw [leavesBelow_left, ← hlength]; omega) hpos (Prod.mk.inj hpair).1
      rcases hchild with hcollide | hchild
      · exact Or.inl (hcollide.cons _ _)
      · exact Or.inr hchild
    · exact Or.inl ⟨_, List.mem_cons_self, _, List.mem_cons_self, rfl, rfl, hpair, hhash⟩

/-- The tree of a block with these transactions. -/
def blockTree (leaves : List Hash256) : Tree := markedTree (leaves.map fun leaf => (leaf, false))

/-- The tree of a block is built over its transactions as if none was marked. -/
private theorem blockTree_eq (leaves : List Hash256) :
    blockTree leaves = Tree.ofLeaves (height (UInt32.ofNat leaves.length))
      (leaves.map fun leaf => (leaf, false)) := by
  rw [blockTree, markedTree, List.length_map]

/-- Marks that are put beside transactions are taken away without a trace. -/
private theorem map_fst_unmarked (leaves : List Hash256) :
    (leaves.map fun leaf => (leaf, false)).map Prod.fst = leaves := by
  simp [Function.comp_def]

/-- The root of a block is the hash of its tree. -/
theorem rootOf?_eq_blockTree {leaves : List Hash256} (hnonempty : leaves ≠ [])
    (hcount : leaves.length < 2 ^ 32) : rootOf? leaves = some (blockTree leaves).hash := by
  have hroot := @rootOf?_eq_markedTree (leaves.map fun leaf => (leaf, false))
    (by simpa using hnonempty) (by rwa [List.length_map])
  rwa [map_fst_unmarked] at hroot

/-- `shown` is the tree that is rebuilt from a proof: the part that the proof shows, which is in the
arena when the walk is over. -/
def Rebuilds (hashes : List Hash256) (total : UInt32) (flags : List Bool) (shown : Shown) : Prop :=
  ∃ rest last, descend total.toNat (height total) 0 0 ⟨flags, hashes⟩ = .ok (shown, rest) ∧
    walk total (height total) (.start flags hashes) = .ok last ∧
    (last.flags, last.hashes) = (rest.flags, rest.hashes) ∧
    last.matched.toList = shown.matched ∧ last.arena.Holds 0 1 Node.root shown

/-- The part that is read from a proof is the one that the walk rebuilds. -/
theorem Reads.rebuilds {total : UInt32} {flags : List Bool} {hashes : List Hash256} {shown : Shown}
    {rest : Supply} (htotal : total ≠ 0)
    (h : Reads total.toNat (height total) 0 0 ⟨flags, hashes⟩ shown rest) :
    Rebuilds hashes total flags shown := by
  have hroot := walk_root htotal flags hashes
  rw [h.descend_eq] at hroot
  obtain ⟨last, hwalk, hexplores⟩ := hroot
  have hleft : (last.flags, last.hashes) = (rest.flags, rest.hashes) :=
    Prod.ext hexplores.flags_eq hexplores.hashes_eq
  exact ⟨rest, last, h.descend_eq, hwalk, hleft, hexplores.matched_eq, hexplores.holds⟩

/-- **An accepted proof matches transactions of the block, in their order**, unless
the rebuilt tree and the tree of the block hash two different pairs to one value at
one of their nodes. -/
theorem matched_of_verifyRoot {leaves hashes : List Hash256} {flags : List Bool}
    {tree : PartialTree} {root : Hash256} (hcount : leaves.length < 2 ^ 32)
    (hroot : rootOf? leaves = some root)
    (hbuild : build hashes (UInt32.ofNat leaves.length) flags = .ok tree)
    (hverify : tree.verifyRoot root = .ok ()) :
    ∃ shown, Rebuilds hashes (UInt32.ofNat leaves.length) flags shown ∧
      shown.root = .ok tree.root ∧
      (Collide (shown.joints 0 0) ((blockTree leaves).joints 0 0) ∨
        ∃ positions : List (Fin leaves.length),
          positions.Pairwise (· < ·) ∧ tree.matched = positions.map fun i => leaves[i]) := by
  obtain ⟨htotal, -, shown, padding, computed, hreads, -, hcomputed, rfl⟩ :=
    build_eq_ok_iff.mp hbuild
  have hnonempty : leaves ≠ [] := by rintro rfl; exact htotal rfl
  refine ⟨shown, hreads.rebuilds htotal, hcomputed, ?_⟩
  have hcomputedRoot : computed = root := by simpa [PartialTree.verifyRoot] using hverify
  have hhash : shown.hash = (blockTree leaves).hash := by
    rw [rootOf?_eq_blockTree hnonempty hcount, Option.some.injEq] at hroot
    rw [Shown.hash_of_root hcomputed, hcomputedRoot, hroot]
  rw [blockTree_eq] at hhash ⊢
  have hlength : (leaves.map fun leaf => (leaf, false)).length =
      leavesBelow (UInt32.ofNat leaves.length).toNat (height (UInt32.ofNat leaves.length)) 0 := by
    rw [leavesBelow_root, List.length_map, UInt32.toNat_ofNat_of_lt' hcount]
  have hmatched := hreads.matched_sublist hlength
    (by rw [List.length_map]; exact List.length_pos_iff.mpr hnonempty) hhash
  rcases hmatched with hcollide | hsublist
  · exact Or.inl hcollide
  · right
    rw [map_fst_unmarked] at hsublist
    obtain ⟨positions, hmap, hsorted⟩ := List.sublist_eq_map_getElem hsublist
    exact ⟨positions, hsorted, hmap⟩

/-- The first of two transactions, proved to be in their block. -/
theorem matched_of_verifyRoot_two :
    rootOf? [.zero, ones] = some (Hash256.pair .zero ones) ∧
      build [.zero, ones] 2 [true, true, false] =
        .ok ⟨2, 1, Hash256.pair .zero ones, [.zero]⟩ ∧
      ∃ shown, Rebuilds [.zero, ones] 2 [true, true, false] shown ∧
        shown.root = .ok (Hash256.pair .zero ones) ∧
        (Collide (shown.joints 0 0) ((blockTree [.zero, ones]).joints 0 0) ∨
          ∃ positions : List (Fin 2), positions.Pairwise (· < ·) ∧
            [Hash256.zero] = positions.map fun i => [Hash256.zero, ones][i]) := by
  have hroot : rootOf? [.zero, ones] = some (Hash256.pair .zero ones) := by
    rw [rootOf?, levelAbove, levelAbove, rootOf?]
  have hbuild : build [.zero, ones] 2 [true, true, false] =
      .ok ⟨2, 1, Hash256.pair .zero ones, [.zero]⟩ := build_eq (by decide) (by decide)
  have hverify : PartialTree.verifyRoot ⟨2, 1, Hash256.pair .zero ones, [.zero]⟩
      (Hash256.pair .zero ones) = .ok () := if_pos rfl
  exact ⟨hroot, hbuild,
    @matched_of_verifyRoot [.zero, ones] _ _ _ _ (by decide) hroot hbuild hverify⟩

end LightPeer.Merkle
