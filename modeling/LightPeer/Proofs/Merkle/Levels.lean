import LightPeer.Merkle.Tree
import LightPeer.Proofs.Merkle.Shape

/-!
# The root by levels and the tree from above

The root of a block is computed level by level, from the transactions up; a `Tree`
is built from the root down.

* `hash_ofLeaves_succ` — pairing the leaves takes one level off the tree;
* `rootOf?_eq_hash` — so both give one root, if the tree is no deeper than needed;
* `rootOf?_eq_markedTree` — and the tree of a block is not.
-/

namespace LightPeer.Merkle

/-- Levels cut at an even place are paired part by part. -/
theorem levelAbove_append {xs : List Hash256} (heven : xs.length % 2 = 0) (ys : List Hash256) :
    levelAbove (xs ++ ys) = levelAbove xs ++ levelAbove ys := by
  fun_induction levelAbove xs with
  | case1 left right rest ih =>
    rw [List.length_cons, List.length_cons] at heven
    simp only [List.cons_append, levelAbove, ih (by omega)]
  | case2 => simp at heven
  | case3 => rfl

/-- Cutting a level at an even place cuts the level above at half of it. -/
theorem levelAbove_take_drop {xs : List Hash256} {n : Nat} (h : 2 * n ≤ xs.length) :
    levelAbove (xs.take (2 * n)) = (levelAbove xs).take n ∧
      levelAbove (xs.drop (2 * n)) = (levelAbove xs).drop n := by
  have hlength : (xs.take (2 * n)).length = 2 * n := List.length_take_of_le h
  have habove : (levelAbove (xs.take (2 * n))).length = n := by
    rw [length_levelAbove, hlength]
    omega
  have hsplit := levelAbove_append (by omega : (xs.take (2 * n)).length % 2 = 0) (xs.drop (2 * n))
  rw [List.take_append_drop] at hsplit
  rw [hsplit]
  exact ⟨(List.take_left' habove).symm, (List.drop_left' habove).symm⟩

/-- Leaves that are paired up keep their marks beside them, and there are as many as there are
pairs. -/
private theorem length_of_map_eq_levelAbove {leaves above : List (Hash256 × Bool)}
    (habove : above.map Prod.fst = levelAbove (leaves.map Prod.fst)) :
    above.length = (leaves.length + 1) / 2 := by
  simpa [length_levelAbove] using congrArg List.length habove

/-- One level less over the paired leaves is the same tree, as far as its root shows. -/
theorem hash_ofLeaves_succ {depth : Nat} {leaves above : List (Hash256 × Bool)}
    (hpos : 0 < leaves.length) (hfit : leaves.length ≤ 2 ^ (depth + 1))
    (habove : above.map Prod.fst = levelAbove (leaves.map Prod.fst)) :
    (Tree.ofLeaves (depth + 1) leaves).hash = (Tree.ofLeaves depth above).hash := by
  have hlength := length_of_map_eq_levelAbove habove
  induction depth generalizing leaves above with
  | zero =>
    obtain ⟨u, rfl⟩ := List.length_eq_one_iff.mp (by omega : above.length = 1)
    rcases leaves with _ | ⟨a, _ | ⟨b, _ | ⟨l, rest⟩⟩⟩
    · cases hpos
    · simp only [List.map_cons, List.map_nil, levelAbove, List.cons.injEq, and_true] at habove
      exact habove.symm
    · simp only [List.map_cons, List.map_nil, levelAbove, List.cons.injEq, and_true] at habove
      exact habove.symm
    · simp only [List.length_cons] at hfit
      omega
  | succ depth ih =>
    have hpow : 2 ^ (depth + 1) = 2 * 2 ^ depth := Nat.pow_succ'
    have hpow' : 2 ^ (depth + 1 + 1) = 2 * 2 ^ (depth + 1) := Nat.pow_succ'
    rw [Tree.ofLeaves, Tree.ofLeaves.eq_def (depth + 1) above]
    by_cases hhalf : leaves.length ≤ 2 ^ (depth + 1)
    · rw [if_pos hhalf]
      simp only [show above.length ≤ 2 ^ depth by omega, if_true, Tree.hash,
        ih hpos hhalf habove hlength]
    · rw [if_neg hhalf]
      simp only [show ¬ above.length ≤ 2 ^ depth by omega, if_false, Tree.hash]
      obtain ⟨htake, hdrop⟩ := levelAbove_take_drop
        (by rw [List.length_map]; omega : 2 * 2 ^ depth ≤ (leaves.map Prod.fst).length)
      have hleft : (above.take (2 ^ depth)).map Prod.fst =
          levelAbove ((leaves.take (2 ^ (depth + 1))).map Prod.fst) := by
        rw [List.map_take, habove, List.map_take, hpow, htake]
      have hright : (above.drop (2 ^ depth)).map Prod.fst =
          levelAbove ((leaves.drop (2 ^ (depth + 1))).map Prod.fst) := by
        rw [List.map_drop, habove, List.map_drop, hpow, hdrop]
      rw [ih (by rw [List.length_take]; omega) (by rw [List.length_take]; omega) hleft
          (length_of_map_eq_levelAbove hleft),
        ih (by rw [List.length_drop]; omega) (by rw [List.length_drop]; omega) hright
          (length_of_map_eq_levelAbove hright)]

/-- **The root of a block is the hash of its tree**, if the tree is as deep as its
leaves need and no deeper. -/
theorem rootOf?_eq_hash {depth : Nat} {leaves : List (Hash256 × Bool)}
    (hfit : leaves.length ≤ 2 ^ depth) (hneeded : 2 ^ depth < 2 * leaves.length) :
    rootOf? (leaves.map Prod.fst) = some (Tree.ofLeaves depth leaves).hash := by
  induction depth generalizing leaves with
  | zero =>
    obtain ⟨leaf, rfl⟩ := List.length_eq_one_iff.mp (by omega : leaves.length = 1)
    rw [List.map_cons, List.map_nil, rootOf?]
    rfl
  | succ depth ih =>
    have hpow : 2 ^ (depth + 1) = 2 * 2 ^ depth := Nat.pow_succ'
    have hpos : 0 < 2 ^ depth := Nat.pow_pos (by decide)
    rcases leaves with _ | ⟨a, _ | ⟨b, rest⟩⟩
    · rw [List.length_nil] at hneeded
      omega
    · rw [List.length_singleton] at hneeded
      omega
    · -- the marks above the leaves do not matter
      let above := (levelAbove ((a :: b :: rest).map Prod.fst)).map fun h => (h, false)
      have habove : above.map Prod.fst = levelAbove ((a :: b :: rest).map Prod.fst) := by
        simp [above, Function.comp_def]
      have hlength := length_of_map_eq_levelAbove habove
      rw [hash_ofLeaves_succ (by simp) hfit habove,
        ← ih (by omega : above.length ≤ 2 ^ depth) (by omega), habove, List.map_cons,
        List.map_cons, rootOf?]

/-- The tree of a block some of whose transactions are marked. -/
def markedTree (leaves : List (Hash256 × Bool)) : Tree :=
  Tree.ofLeaves (height (UInt32.ofNat leaves.length)) leaves

/-- A hash that is not `Hash256.zero`. -/
def ones : Hash256 := ⟨Bytes.replicate 32 1, by simp⟩

section
variable {leaves : List (Hash256 × Bool)} (hsome : leaves ≠ []) (hcount : leaves.length < 2 ^ 32)
include hsome hcount

/-- A block with transactions has a count that is not zero, also as a word. -/
theorem total_ne_zero : UInt32.ofNat leaves.length ≠ 0 := by
  intro h
  have htotal : (UInt32.ofNat leaves.length).toNat = leaves.length :=
    UInt32.toNat_ofNat_of_lt' hcount
  rw [h, UInt32.toNat_zero] at htotal
  exact hsome (List.length_eq_zero_iff.mp htotal.symm)

/-- The tree of a block has all transactions as its leaves, in their order. -/
theorem leaves_markedTree : (markedTree leaves).leaves = leaves := by
  have hfit := le_two_pow_height (UInt32.ofNat leaves.length)
  rw [UInt32.toNat_ofNat_of_lt' hcount] at hfit
  exact Tree.leaves_ofLeaves hsome hfit

/-- The root of a block is the hash of its tree, whatever is marked. -/
theorem rootOf?_eq_markedTree : rootOf? (leaves.map Prod.fst) = some (markedTree leaves).hash := by
  have hfit := le_two_pow_height (UInt32.ofNat leaves.length)
  have hneeded := two_pow_height_lt (total_ne_zero hsome hcount)
  rw [UInt32.toNat_ofNat_of_lt' hcount] at hfit hneeded
  exact rootOf?_eq_hash hfit hneeded

end

end LightPeer.Merkle
