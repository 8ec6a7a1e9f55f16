import Mathlib.Algebra.Order.Floor.Div
import Mathlib.Data.Nat.Log
import LightPeer.Proofs.Merkle.Walk

/-!
# The walk is a descent

`build` keeps the places of the nodes that it has yet to visit in a list, links every node to its
children, and computes the hashes along the links.  `ofDescent` is a recursion over the tree that
says what a proof means: a node takes a flag, and then a hash or its children.  Both give the same
answer for all flags and hashes, and where they refuse a proof they give the same reason for it.

The two count in their own ways.  `build` looks for the height one level at a time, and takes
leftover flags for padding if they end where the last byte ends; `ofDescent` has a logarithm, and
counts the flags that the last byte can still hold.

* `ceilLog2_eq_clog` — the logarithm is what its name says;
* `height_eq_ceilLog2` — the height that is looked for is the logarithm;
* `not_isPadding_eq` — one rule for leftover flags;
* `build_eq_ofDescent` — the two answers are one.
-/

namespace LightPeer.Merkle

/-- The height of a tree is the logarithm of its leaves, rounded up. -/
theorem ceilLog2_eq_clog (n : Nat) : ceilLog2 n = Nat.clog 2 n := by
  rw [ceilLog2]
  split
  · next hfew => exact (Nat.clog_of_right_le_one hfew 2).symm
  · next hmany =>
    have hne : n - 1 ≠ 0 := by omega
    refine le_antisymm ?_ (Nat.clog_le_of_le_pow ?_)
    · rw [Nat.succ_le_iff, ← not_le, Nat.clog_le_iff_le_pow (by decide)]
      have hle := Nat.log2_self_le hne
      omega
    · have hlt := Nat.lt_log2_self (n := n - 1)
      omega

/-- The height is the least one with enough leaves, as a search for it finds and as a logarithm
says. -/
theorem height_eq_ceilLog2 (total : UInt32) : height total = ceilLog2 total.toNat := by
  rw [ceilLog2_eq_clog]
  refine le_antisymm ?_ (Nat.clog_le_of_le_pow (le_two_pow_height total))
  by_cases htotal : total = 0
  · subst htotal
    exact Nat.zero_le _
  · have hneeded := two_pow_height_lt htotal
    have hfits := Nat.le_pow_clog (b := 2) (by decide) total.toNat
    rw [← Nat.lt_succ_iff, ← Nat.pow_lt_pow_iff_right (a := 2) (by decide), Nat.pow_succ]
    omega

/-- Flags left over are no padding if one is set, or if the last byte cannot hold them all. -/
theorem not_isPadding_eq (used : Nat) (flags : List Bool) :
    (! isPadding used flags) = (flags.any id || decide ((8 - used % 8) % 8 < flags.length)) := by
  have hany : (! flags.all (! ·)) = flags.any id := by
    rw [List.not_all_eq_any_not]
    exact congrArg flags.any (funext Bool.not_not)
  have hlength : (! decide (used + flags.length ≤ (used + 7) / 8 * 8)) =
      decide ((8 - used % 8) % 8 < flags.length) := by
    rw [← decide_not, decide_eq_decide]
    omega
  rw [isPadding, Bool.not_and, hany, hlength, Bool.or_comm]

/-- A descent reads a part, and then it is settled what becomes of it. -/
theorem ofDescent_eq {hashes : List Hash256} {total : UInt32} {flags : List Bool}
    (htotal : total ≠ 0) (hcount : hashes.length ≤ total.toNat) :
    ofDescent hashes total flags =
      (descend total.toNat (ceilLog2 total.toNat) 0 0 ⟨flags, hashes⟩).bind fun answer =>
        settle total flags answer.1 answer.2 := by
  simp only [ofDescent, htotal, Nat.not_lt.mpr hcount, if_false, bind, pure, Except.pure,
    settle, not_isPadding_eq, height_eq_ceilLog2]
  refine congrArg _ (funext fun answer => ?_)
  by_cases hhashes : answer.2.hashes = []
  · simp only [hhashes, ne_eq, not_true_eq_false, if_false]
    split
    · rfl
    · cases answer.1.root <;> rfl
  · simp only [hhashes, ne_eq, not_false_eq_true, if_true]
    rfl

/-- **The walk is a descent.**  What `build` accepts is what the recursion accepts, with the same
height, root and matched leaves, and what is refused is refused for the same reason. -/
theorem build_eq_ofDescent (hashes : List Hash256) (total : UInt32) (flags : List Bool) :
    build hashes total flags = ofDescent hashes total flags := by
  by_cases htotal : total = 0
  · rw [build, ofDescent, if_pos htotal, if_pos htotal]
    rfl
  by_cases hcount : hashes.length ≤ total.toNat
  · rw [build_eq htotal hcount, ofDescent_eq htotal hcount, height_eq_ceilLog2]
    cases descend total.toNat (ceilLog2 total.toNat) 0 0 ⟨flags, hashes⟩ <;> rfl
  · have hmany := Nat.lt_of_not_le hcount
    rw [build, ofDescent, if_neg htotal, if_neg htotal, if_pos hmany, if_pos hmany]
    rfl

end LightPeer.Merkle
