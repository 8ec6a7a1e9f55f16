import LightPeer.Proofs.Merkle.Levels
import LightPeer.Proofs.Merkle.Walk

/-!
# Completeness of Merkle proofs

An honest prover knows the whole tree and marks some of its leaves.  The proof goes down
to the marked leaves; what it shows is `Tree.shown`.  A reader who knows nothing but the
number of leaves goes the same way, takes every flag and every hash, and finds the marked
leaves again.  Only a prover who expands a node with two equal children is refused, and
that is meant to be so.

* `reads_shown` — the reader goes the prover's way;
* `root_shown`, `matched_shown` — and finds the root of the tree and the marked leaves;
* `unpackFlags_packFlags` — flags that are packed into bytes come back with padding behind;
* `ofFlagBytes_of_no_twins` — so the proof of a block is accepted.
-/

namespace LightPeer.Merkle

namespace Tree

/-- The part of a tree that its proof shows, if its topmost node stands at a place. -/
def shown (level index : Nat) : Tree → Shown
  | .leaf hash marked => .given hash marked
  | .fork left right =>
    if left.hasMarked || right.hasMarked then
      .fork (level + 1) (2 * index + 1) (left.shown (level + 1) (2 * index))
        (right.shown (level + 1) (2 * index + 1))
    else .given (Tree.fork left right).hash false
  | .lone child =>
    if child.hasMarked then .lone (child.shown (level + 1) (2 * index))
    else .given (Tree.lone child).hash false

/-- A tree has no part without leaves, so the places of its leaves are never empty ranges. -/
theorem leaves_length_pos (t : Tree) : 0 < t.leaves.length := by
  induction t with
  | leaf => exact Nat.one_pos
  | fork left right ihl ihr =>
    rw [leaves, List.length_append]
    omega
  | lone child ih => exact ih

/-- A proof has no more hashes than the tree has leaves. -/
theorem length_hashes_le (t : Tree) : t.hashes.length ≤ t.leaves.length := by
  induction t with
  | leaf => exact Nat.le_refl 1
  | fork left right ihl ihr =>
    have hpos := left.leaves_length_pos
    rw [hashes, leaves, List.length_append]
    split
    · rw [List.length_append]
      omega
    · rw [List.length_singleton]
      omega
  | lone child ih =>
    have hpos := child.leaves_length_pos
    rw [hashes, leaves]
    split
    · exact ih
    · exact hpos

/-- A node takes one flag, and there are not many nodes. -/
theorem length_flags_lt (depth : Nat) (ls : List (Hash256 × Bool)) :
    (ofLeaves depth ls).flags.length < 2 ^ (depth + 1) := by
  induction depth generalizing ls with
  | zero =>
    have hleaf : (ofLeaves 0 ls).flags.length = 1 := by cases ls <;> rfl
    rw [hleaf]
    decide
  | succ depth ih =>
    have hpow : 2 ^ (depth + 1 + 1) = 2 * 2 ^ (depth + 1) := Nat.pow_succ'
    rw [ofLeaves]
    split
    · have hchild := ih ls
      rw [flags]
      split <;> simp only [List.length_cons, List.length_nil] <;> omega
    · have hleft := ih (ls.take (2 ^ depth))
      have hright := ih (ls.drop (2 ^ depth))
      rw [flags]
      split <;> simp only [List.length_cons, List.length_append, List.length_nil] <;> omega

/-- The proof stops at a node without marks below it, and no pair of siblings is below where it
stops. -/
theorem hasTwins_of_unmarked {t : Tree} (h : t.hasMarked = false) : t.hasTwins = false := by
  induction t with
  | leaf => rfl
  | fork left right => rw [hasMarked] at h; rw [hasTwins, h, Bool.false_and]
  | lone child ih => exact ih h

/-- The marks of the left child come first, as its leaves do. -/
theorem marked_fork (left right : Tree) :
    (Tree.fork left right).marked = left.marked ++ right.marked :=
  List.filterMap_append ..

/-- No leaf is marked where the proof shows a hash only. -/
theorem marked_of_unmarked {t : Tree} (h : t.hasMarked = false) : t.marked = [] := by
  induction t with
  | leaf hash marked =>
    rw [hasMarked] at h
    subst h
    rfl
  | fork left right ihl ihr =>
    rw [hasMarked, Bool.or_eq_false_iff] at h
    rw [marked_fork, ihl h.1, ihr h.2, List.append_nil]
  | lone child ih => exact ih h

/-- The matched leaves of the part are the marked leaves of the tree. -/
theorem matched_shown (t : Tree) (level index : Nat) :
    (t.shown level index).matched = t.marked := by
  induction t generalizing level index with
  | leaf hash marked => cases marked <;> rfl
  | fork left right ihl ihr =>
    rw [shown]
    split
    · rw [Shown.matched, ihl, ihr, marked_fork]
    · next hmarked =>
      have hnone := @marked_of_unmarked (.fork left right) (Bool.eq_false_iff.mpr hmarked)
      rw [hnone]
      rfl
  | lone child ih =>
    rw [shown]
    split
    · exact ih _ _
    · next hmarked =>
      exact (@marked_of_unmarked (.lone child) (Bool.eq_false_iff.mpr hmarked)).symm

/-- **The root of the part is the root of the tree**, if the proof goes through no twins. -/
theorem root_shown {t : Tree} (h : t.hasTwins = false) (level index : Nat) :
    (t.shown level index).root = .ok t.hash := by
  induction t generalizing level index with
  | leaf => rfl
  | fork left right ihl ihr =>
    rw [shown]
    split
    · next hmarked =>
      rw [hasTwins, hmarked, Bool.true_and, Bool.or_eq_false_iff, Bool.or_eq_false_iff,
        decide_eq_false_iff_not] at h
      obtain ⟨⟨hleft, hright⟩, hne⟩ := h
      simp only [Shown.root, ihl hleft, ihr hright, bind, Except.bind, if_neg hne]
      rfl
    · rfl
  | lone child ih =>
    rw [shown]
    split
    · simp only [Shown.root, ih h, bind, Except.bind]
      rfl
    · rfl

/-- Twins on the way are found, and no root is computed then, although the proof is that of the
tree. -/
theorem root_shown_of_hasTwins {t : Tree} (h : t.hasTwins = true) (level index : Nat) :
    ∃ node, (t.shown level index).root = .error (.duplicateSiblings node) := by
  induction t generalizing level index with
  | leaf => cases h
  | fork left right ihl ihr =>
    rw [hasTwins, Bool.and_eq_true] at h
    obtain ⟨hmarked, htwins⟩ := h
    rw [shown, if_pos hmarked, Shown.root]
    cases hleft : left.hasTwins with
    | true =>
      obtain ⟨node, hnode⟩ := ihl hleft (level + 1) (2 * index)
      exact ⟨node, by rw [hnode]; rfl⟩
    | false =>
      rw [root_shown hleft]
      cases hright : right.hasTwins with
      | true =>
        obtain ⟨node, hnode⟩ := ihr hright (level + 1) (2 * index + 1)
        exact ⟨node, by rw [hnode]; rfl⟩
      | false =>
        rw [hleft, hright, Bool.false_or, Bool.false_or, decide_eq_true_eq] at htwins
        rw [root_shown hright]
        exact ⟨_, if_pos htwins⟩
  | lone child ih =>
    have hmarked : child.hasMarked = true := by
      cases hunmarked : child.hasMarked with
      | true => rfl
      | false =>
        rw [hasTwins, hasTwins_of_unmarked hunmarked] at h
        cases h
    obtain ⟨node, hnode⟩ := ih h (level + 1) (2 * index)
    rw [shown, if_pos hmarked, Shown.root, hnode]
    exact ⟨node, rfl⟩

end Tree

/-- **A reader goes the prover's way** and leaves what comes behind the proof. -/
theorem reads_shown {total depth level index : Nat} {leaves : List (Hash256 × Bool)}
    (hlength : leaves.length = leavesBelow total depth index) (hpos : 0 < leaves.length)
    (flags : List Bool) (hashes : List Hash256) :
    Reads total depth level index
      ⟨(Tree.ofLeaves depth leaves).flags ++ flags, (Tree.ofLeaves depth leaves).hashes ++ hashes⟩
      ((Tree.ofLeaves depth leaves).shown level index) ⟨flags, hashes⟩ := by
  induction depth generalizing level index leaves flags hashes with
  | zero =>
    match leaves, hpos with
    | (hash, marked) :: _, _ => exact .leaf
  | succ depth ih =>
    rw [Tree.ofLeaves]
    by_cases hfew : leaves.length ≤ 2 ^ depth
    · rw [if_pos hfew, Tree.shown, Tree.flags, Tree.hashes]
      have hright : ¬ 2 * index + 1 < widthAbove total depth := by
        rw [right_lt_widthAbove_iff, ← hlength]
        exact Nat.not_lt.mpr hfew
      split
      · exact .lone hright
          (ih (by rw [leavesBelow_left, ← hlength]; omega) hpos flags hashes)
      · exact .pruned
    · rw [if_neg hfew, Tree.shown, Tree.flags, Tree.hashes]
      have hmore := Nat.not_le.mp hfew
      have hright : 2 * index + 1 < widthAbove total depth := by
        rw [right_lt_widthAbove_iff, ← hlength]
        exact hmore
      split
      · rw [List.cons_append, List.append_assoc, List.append_assoc]
        refine .fork hright (ih ?_ ?_ _ _) (ih ?_ ?_ flags hashes)
        · rw [List.length_take, hlength, leavesBelow_left]
        · have := Nat.two_pow_pos depth
          rw [List.length_take]
          omega
        · rw [List.length_drop, hlength, leavesBelow_right]
        · rw [List.length_drop]
          omega
      · exact .pruned

/-- The number whose bits are these flags, the first one least significant. -/
def flagNumber (flags : List Bool) : Nat := flags.foldr (fun flag byte => flag.toNat + 2 * byte) 0

/-- So many flags need no more bits than there are of them. -/
theorem flagNumber_lt (flags : List Bool) : flagNumber flags < 2 ^ flags.length := by
  induction flags with
  | nil => exact Nat.one_pos
  | cons flag flags ih =>
    have hstep : flagNumber (flag :: flags) = flag.toNat + 2 * flagNumber flags := rfl
    have hflag := flag.toNat_le
    rw [hstep, List.length_cons, Nat.pow_succ']
    omega

/-- The bits of the number are the flags, and zeros behind them. -/
theorem map_testBit_flagNumber {flags : List Bool} {width : Nat} (h : flags.length ≤ width) :
    (List.range width).map (flagNumber flags).testBit =
      flags ++ List.replicate (width - flags.length) false := by
  induction flags generalizing width with
  | nil =>
    have hzero : (flagNumber []).testBit = fun _ => false := funext Nat.zero_testBit
    rw [hzero, List.map_const', List.length_range]
    rfl
  | cons flag flags ih =>
    obtain ⟨width, rfl⟩ : ∃ w, width = w + 1 := ⟨width - 1, by rw [List.length_cons] at h; omega⟩
    rw [List.length_cons] at h
    have hstep : flagNumber (flag :: flags) = flag.toNat + 2 * flagNumber flags := rfl
    have hfirst : (flagNumber (flag :: flags)).testBit 0 = flag := by
      rw [hstep]
      cases flag <;> simp [Nat.testBit_zero]
    have hothers (i : Nat) :
        (flagNumber (flag :: flags)).testBit (i + 1) = (flagNumber flags).testBit i := by
      have hhalf : flagNumber (flag :: flags) / 2 = flagNumber flags := by
        have hflag := flag.toNat_lt
        rw [hstep]
        omega
      rw [Nat.testBit_succ, hhalf]
    rw [List.range_succ_eq_map, List.map_cons, hfirst, List.map_map, List.cons_append,
      List.length_cons, Nat.add_sub_add_right, ← ih (Nat.le_of_succ_le_succ h)]
    exact congrArg (flag :: ·) (List.map_congr_left fun i _ => hothers i)

/-- Up to eight flags fit into one byte as a number. -/
theorem toNat_packByte {flags : List Bool} (h : flags.length ≤ 8) :
    (packByte flags).toNat = flagNumber flags := by
  have hlt := Nat.lt_of_lt_of_le (flagNumber_lt flags) (Nat.pow_le_pow_right (by decide) h)
  exact (UInt8.toNat_ofNat' ..).trans (Nat.mod_eq_of_lt hlt)

/-- **Packed flags come back**, and what is behind them only fills up the last byte. -/
theorem unpackFlags_packFlags (flags : List Bool) :
    ∃ padding, unpackFlags (packFlags flags) = flags ++ padding ∧
      isPadding flags.length padding = true := by
  suffices h : ∃ count, unpackFlags (packFlags flags) = flags ++ List.replicate count false ∧
      flags.length + count ≤ (flags.length + 7) / 8 * 8 by
    obtain ⟨count, heq, hle⟩ := h
    refine ⟨_, heq, ?_⟩
    rw [isPadding, List.length_replicate]
    simp [hle]
  fun_induction packFlags flags with
  | case1 => exact ⟨0, rfl, Nat.le_refl 0⟩
  | case2 flags hsome ih =>
    obtain ⟨count, hrest, hle⟩ := ih
    have hpos := List.length_pos_iff.mpr hsome
    have htake : (flags.take 8).length ≤ 8 := List.length_take_le ..
    have hbits := map_testBit_flagNumber htake
    rw [List.length_drop] at hle
    have hunpack : unpackFlags (packByte (flags.take 8) :: packFlags (flags.drop 8)) =
        flags.take 8 ++ List.replicate (8 - (flags.take 8).length) false ++
          (flags.drop 8 ++ List.replicate count false) := by
      rw [← hrest, ← hbits, ← toNat_packByte htake]
      rfl
    rw [List.length_take] at hunpack
    by_cases hfull : 8 ≤ flags.length
    · refine ⟨count, ?_, by omega⟩
      rw [hunpack, Nat.min_eq_left hfull, Nat.sub_self, List.replicate_zero, List.append_nil,
        ← List.append_assoc, List.take_append_drop]
    · have hnone : count = 0 := by omega
      refine ⟨8 - flags.length, ?_, by omega⟩
      rw [hunpack, hnone, Nat.min_eq_right (by omega), List.take_of_length_le (by omega),
        List.drop_eq_nil_of_le (by omega), List.replicate_zero, List.append_nil, List.append_nil]

/-- Flags take no more bytes than there are of them, so their number can be written in front. -/
theorem length_packFlags_le (flags : List Bool) : (packFlags flags).length ≤ flags.length := by
  fun_induction packFlags flags with
  | case1 => exact Nat.le_refl 0
  | case2 flags hsome ih =>
    have hpos := List.length_pos_iff.mpr hsome
    rw [List.length_drop] at ih
    rw [List.length_cons]
    omega

section
variable {leaves : List (Hash256 × Bool)} (hsome : leaves ≠ []) (hcount : leaves.length < 2 ^ 32)
include hsome hcount

/-- The proof of a block is read, and then settled by the root of what it shows. -/
theorem ofFlagBytes_markedTree :
    ofFlagBytes (markedTree leaves).hashes (UInt32.ofNat leaves.length)
        (packFlags (markedTree leaves).flags) =
      ((markedTree leaves).shown 0 0).root.map fun root =>
        ⟨UInt32.ofNat leaves.length, height (UInt32.ofNat leaves.length), root,
          (markedTree leaves).marked⟩ := by
  obtain ⟨padding, hunpack, hpadding⟩ := unpackFlags_packFlags (markedTree leaves).flags
  have htotal : (UInt32.ofNat leaves.length).toNat = leaves.length :=
    UInt32.toNat_ofNat_of_lt' hcount
  have hhashes : (markedTree leaves).hashes.length ≤ (UInt32.ofNat leaves.length).toNat := by
    have hle := (markedTree leaves).length_hashes_le
    rw [leaves_markedTree hsome hcount] at hle
    rwa [htotal]
  have hlength : leaves.length = leavesBelow (UInt32.ofNat leaves.length).toNat
      (height (UInt32.ofNat leaves.length)) 0 := by
    rw [leavesBelow_root, htotal]
  have hreads := (@reads_shown _ _ 0 0 leaves hlength (List.length_pos_iff.mpr hsome) padding
    []).descend_eq
  rw [List.append_nil] at hreads
  have hused : ((markedTree leaves).flags ++ padding).length - padding.length =
      (markedTree leaves).flags.length := by
    rw [List.length_append]
    omega
  rw [← hused] at hpadding
  rw [ofFlagBytes, hunpack, build_eq (total_ne_zero hsome hcount) hhashes]
  simp only [markedTree] at hpadding ⊢
  simp only [hreads, settle_of_isPadding hpadding, Tree.matched_shown]

/-- **The proof of a block is accepted**, and the marked transactions are found in their order,
if it goes through no twins. -/
theorem ofFlagBytes_of_no_twins (htwins : (markedTree leaves).hasTwins = false) :
    ofFlagBytes (markedTree leaves).hashes (UInt32.ofNat leaves.length)
        (packFlags (markedTree leaves).flags) =
      .ok ⟨UInt32.ofNat leaves.length, height (UInt32.ofNat leaves.length),
        (markedTree leaves).hash, (markedTree leaves).marked⟩ := by
  rw [ofFlagBytes_markedTree hsome hcount, Tree.root_shown htwins, Except.map]

/-- A proof that goes through twins is refused for them. -/
theorem ofFlagBytes_of_twins (htwins : (markedTree leaves).hasTwins = true) :
    ∃ node, ofFlagBytes (markedTree leaves).hashes (UInt32.ofNat leaves.length)
        (packFlags (markedTree leaves).flags) = .error (.duplicateSiblings node) := by
  obtain ⟨node, hnode⟩ := Tree.root_shown_of_hasTwins htwins 0 0
  exact ⟨node, by rw [ofFlagBytes_markedTree hsome hcount, hnode, Except.map]⟩

end

end LightPeer.Merkle
