import LightPeer.Merkle.Descent

/-!
# Where the nodes of a Merkle tree are

The shape of a tree is computed with words of 32 and 64 bits.  This file says the
same with plain numbers.

* `le_two_pow_height`, `two_pow_height_lt` — the height is the least number of
  levels that has room for the leaves;
* `lt_widthAbove_iff` — the node at position `i`, `d` levels above the leaves,
  exists exactly if leaf `i * 2 ^ d` does;
* `hasRight_eq` — the comparison that the walk makes is the one of that rule, and
  neither position of a child overflows.
-/

namespace LightPeer.Merkle

/-- The search for the height stops at the first power of two that is not below the count. -/
theorem heightFrom_spec {total fuel level : Nat} (hfuel : total ≤ 2 ^ (level + fuel))
    (hbelow : ∀ k < level, 2 ^ k < total) :
    total ≤ 2 ^ heightFrom total fuel level ∧
      (∀ k < heightFrom total fuel level, 2 ^ k < total) ∧
      heightFrom total fuel level ≤ level + fuel := by
  induction fuel generalizing level with
  | zero => exact ⟨hfuel, hbelow, Nat.le_refl _⟩
  | succ fuel ih =>
    rw [heightFrom]
    split
    · next hmore =>
      have hnext : ∀ k < level + 1, 2 ^ k < total := by
        intro k hk
        rcases Nat.lt_succ_iff_lt_or_eq.mp hk with h | rfl
        · exact hbelow k h
        · exact hmore
      have h := ih (by rwa [Nat.add_right_comm]) hnext
      exact ⟨h.1, h.2.1, by omega⟩
    · next hdone => exact ⟨Nat.le_of_not_lt hdone, hbelow, by omega⟩

/-- So the height is the least one whose power of two is not below the count, and the search has
fuel enough. -/
private theorem height_spec (total : UInt32) :
    total.toNat ≤ 2 ^ height total ∧ (∀ k < height total, 2 ^ k < total.toNat) ∧
      height total ≤ 32 := by
  have hfuel : total.toNat ≤ 2 ^ (0 + 32) := Nat.le_of_lt total.toNat_lt
  have hbelow : ∀ k < 0, 2 ^ k < total.toNat := by omega
  simpa [height] using heightFrom_spec hfuel hbelow

/-- No tree is higher than a count of thirty-two bits allows. -/
theorem height_le (total : UInt32) : height total ≤ 32 := (height_spec total).2.2

/-- The leaves fit under one root, so the topmost level has one place. -/
theorem le_two_pow_height (total : UInt32) : total.toNat ≤ 2 ^ height total :=
  (height_spec total).1

/-- No smaller height would do, so the root of more than one leaf has a right child. -/
theorem two_pow_height_lt {total : UInt32} (h : total ≠ 0) :
    2 ^ height total < 2 * total.toNat := by
  have hpos : 0 < total.toNat :=
    Nat.pos_of_ne_zero fun hzero => h (UInt32.toNat_inj.mp hzero)
  cases hh : height total with
  | zero => omega
  | succ k =>
    have := (height_spec total).2.1 k (by omega)
    rw [Nat.pow_succ]
    omega

/-- A level has a place if and only if the first leaf below that place exists. -/
theorem lt_widthAbove_iff {total depth index : Nat} :
    index < widthAbove total depth ↔ index * 2 ^ depth < total := by
  have hpos : 0 < 2 ^ depth := Nat.pow_pos (by decide)
  rw [widthAbove, Nat.lt_iff_add_one_le, Nat.le_div_iff_mul_le hpos, Nat.add_mul]
  omega

/-- The word arithmetic of `width` neither wraps nor cuts anything off. -/
theorem toNat_width {total : UInt32} {height level : Nat} (h : height - level ≤ 32) :
    (width total height level).toNat = widthAbove total.toNat (height - level) := by
  have htotal : total.toNat < 2 ^ 32 := total.toNat_lt
  unfold width widthAbove
  generalize height - level = shift at h
  have hpow : 2 ^ shift ≤ 2 ^ 32 := Nat.pow_le_pow_right (by decide) h
  have hpos : 0 < 2 ^ shift := Nat.pow_pos (by decide)
  have hshift : shift % 2 ^ 64 % 64 = shift := by omega
  have hone : (1 <<< UInt64.ofNat shift : UInt64).toNat = 2 ^ shift := by
    rw [UInt64.toNat_shiftLeft, UInt64.toNat_ofNat', hshift, UInt64.toNat_one, Nat.shiftLeft_eq]
    omega
  have hsum : (total.toUInt64 + 1 <<< UInt64.ofNat shift).toNat = total.toNat + 2 ^ shift := by
    rw [UInt64.toNat_add, hone, UInt32.toNat_toUInt64]
    omega
  have hless : (total.toUInt64 + 1 <<< UInt64.ofNat shift - 1).toNat =
      total.toNat + 2 ^ shift - 1 := by
    rw [UInt64.toNat_sub_of_le _ _ (by rw [UInt64.le_iff_toNat_le, hsum, UInt64.toNat_one]; omega),
      hsum, UInt64.toNat_one]
  have hquot : (total.toNat + 2 ^ shift - 1) / 2 ^ shift < 2 ^ 32 := by
    rw [Nat.div_lt_iff_lt_mul hpos]
    omega
  rw [UInt64.toNat_toUInt32, UInt64.toNat_shiftRight, hless, UInt64.toNat_ofNat',
    Nat.shiftRight_eq_div_pow, hshift, Nat.mod_eq_of_lt hquot]

/-- How many leaves a node has below it, if it stands `depth` levels above them. -/
def leavesBelow (total depth index : Nat) : Nat := min (2 ^ depth) (total - index * 2 ^ depth)

section
variable {total depth index : Nat}

/-- The first leaf below a node is the first one below its left child. -/
private theorem mul_two_pow_succ (index depth : Nat) :
    index * 2 ^ (depth + 1) = 2 * index * 2 ^ depth := by
  rw [Nat.pow_succ', ← Nat.mul_assoc, Nat.mul_comm index 2]

/-- There is a right child exactly if the left one has no room for all leaves. -/
theorem right_lt_widthAbove_iff :
    2 * index + 1 < widthAbove total depth ↔ 2 ^ depth < leavesBelow total (depth + 1) index := by
  have hpos : 0 < 2 ^ depth := Nat.pow_pos (by decide)
  rw [lt_widthAbove_iff, leavesBelow, mul_two_pow_succ, Nat.pow_succ', Nat.add_mul]
  omega

/-- The left child takes the leaves that it has room for. -/
theorem leavesBelow_left :
    leavesBelow total depth (2 * index) =
      min (2 ^ depth) (leavesBelow total (depth + 1) index) := by
  rw [leavesBelow, leavesBelow, mul_two_pow_succ, Nat.pow_succ']
  omega

/-- The right child takes the others. -/
theorem leavesBelow_right :
    leavesBelow total depth (2 * index + 1) = leavesBelow total (depth + 1) index - 2 ^ depth := by
  rw [leavesBelow, leavesBelow, mul_two_pow_succ, Nat.pow_succ', Nat.add_mul]
  omega

/-- All leaves are below the root. -/
theorem leavesBelow_root (total : UInt32) :
    leavesBelow total.toNat (height total) 0 = total.toNat := by
  have hfit := le_two_pow_height total
  rw [leavesBelow, Nat.zero_mul, Nat.sub_zero, Nat.min_eq_right hfit]

end

section
variable {total : UInt32} {height depth : Nat} {node : Node}

/-- The place of a right child fits into a word, also if there is no such child. -/
private theorem two_mul_index_lt (hexists : node.index.toNat * 2 ^ (depth + 1) < total.toNat) :
    2 * node.index.toNat + 1 < 2 ^ 32 := by
  have htotal : total.toNat < 2 ^ 32 := total.toNat_lt
  have hpos : 0 < 2 ^ depth := Nat.pow_pos (by decide)
  have hle : 2 * node.index.toNat ≤ node.index.toNat * 2 ^ (depth + 1) := by
    rw [Nat.pow_succ, Nat.mul_comm 2, Nat.mul_comm (2 ^ depth) 2, ← Nat.mul_assoc]
    exact Nat.le_mul_of_pos_right _ hpos
  omega

/-- The word for the place of a left child does not wrap around. -/
theorem toNat_left_index (hexists : node.index.toNat * 2 ^ (depth + 1) < total.toNat) :
    node.left.index.toNat = 2 * node.index.toNat := by
  have := two_mul_index_lt hexists
  simp only [Node.left, UInt32.toNat_mul, UInt32.reduceToNat]
  omega

/-- The left child of a node above the leaves exists. -/
theorem left_exists (hexists : node.index.toNat * 2 ^ (depth + 1) < total.toNat) :
    node.left.index.toNat * 2 ^ depth < total.toNat := by
  rw [toNat_left_index hexists, Nat.mul_comm 2, Nat.mul_assoc, ← Nat.pow_succ']
  exact hexists

/-- Nor does the word for the place of a right one. -/
theorem toNat_right_index (hexists : node.index.toNat * 2 ^ (depth + 1) < total.toNat) :
    node.right.index.toNat = 2 * node.index.toNat + 1 := by
  have := two_mul_index_lt hexists
  simp only [Node.right, UInt32.toNat_add, UInt32.toNat_mul, UInt32.reduceToNat]
  omega

/-- A node has a right child exactly if there is a leaf below it. -/
theorem hasRight_eq (hheight : height ≤ 32) (hlevel : node.level + (depth + 1) = height)
    (hexists : node.index.toNat * 2 ^ (depth + 1) < total.toNat) :
    node.hasRight total height =
      decide (2 * node.index.toNat + 1 < widthAbove total.toNat depth) := by
  have hdepth : height - node.right.level = depth := by simp only [Node.right]; omega
  rw [Node.hasRight, decide_eq_decide, UInt32.lt_iff_toNat_lt, toNat_right_index hexists,
    toNat_width (by omega), hdepth]

end

end LightPeer.Merkle
