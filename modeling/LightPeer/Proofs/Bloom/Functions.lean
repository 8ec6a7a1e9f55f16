import Mathlib.Data.FinEnum
import Mathlib.Data.List.Nodup
import Mathlib.Data.Nat.ModEq
import Mathlib.Data.Nat.Prime.Basic
import LightPeer.Bloom.Filter
import LightPeer.Power

/-!
# The functions of a filter differ

All hash functions of a filter are one hash under different seeds.  Every step that the hash takes
with its state can be taken back: what is added is known from the data, factors are odd, a rotation
drops no bit, and a word that is added to itself shifted down keeps its upper bits.  So for data of
any length the hash is a bijection of the seed.

The seeds lie an odd step apart.  So they differ whatever the tweak is, and with them the values of
the functions on any item.  This is said of the values: brought into a small field, two of them may
have the same bit.

* `mul_injective`, `rotateLeft_injective`, `xorShift_injective` — steps that can be taken back;
* `absorb_injective`, `finish_injective` — the state before some data is known from the state
  behind it, and the last state from the result;
* `murmur3_bijective` — every word is the hash of the data under exactly one seed;
* `bitIndices_eq`, `nodup_hashes` — the bits of an item come from the values of the functions on it,
  no two of which are the same;
* `hashes_differ` — these facts about the functions of a filter together.
-/

namespace LightPeer

namespace Murmur3

/-- **A word is known by its product with an odd word.** -/
theorem mul_injective {c : UInt32} (hodd : c.toNat % 2 = 1) :
    Function.Injective fun x : UInt32 => x * c := by
  intro x y h
  have hcoprime : Nat.Coprime (2 ^ 32) c.toNat :=
    Nat.Coprime.pow_left 32 (Nat.coprime_two_left.mpr (Nat.odd_iff.mpr hodd))
  have hproduct : x.toNat * c.toNat ≡ y.toNat * c.toNat [MOD 2 ^ 32] := by
    have hnumbers := congrArg UInt32.toNat h
    rwa [UInt32.toNat_mul, UInt32.toNat_mul] at hnumbers
  have hfactor := Nat.ModEq.cancel_right_of_coprime hcoprime hproduct
  exact UInt32.toNat_inj.mp (hfactor.eq_of_lt_of_lt x.toNat_lt y.toNat_lt)

section
variable {n : UInt32}

/-- The two parts that a rotation exchanges fill a word. -/
theorem two_pow_mul_two_pow (hlt : n.toNat < 32) :
    2 ^ n.toNat * 2 ^ (32 - n.toNat) = 2 ^ 32 := by
  rw [← Nat.pow_add, Nat.add_sub_cancel' (Nat.le_of_lt hlt)]

/-- The upper bits of a word have room where a rotation puts them. -/
theorem div_lt_two_pow (hlt : n.toNat < 32) (x : UInt32) :
    x.toNat / 2 ^ (32 - n.toNat) < 2 ^ n.toNat := by
  rw [Nat.div_lt_iff_lt_mul (Nat.two_pow_pos _), two_pow_mul_two_pow hlt]
  exact x.toNat_lt

/-- A rotation exchanges the lower and the upper bits of a word. -/
theorem toNat_rotateLeft (hpos : 0 < n.toNat) (hlt : n.toNat < 32) (x : UInt32) :
    (rotateLeft x n).toNat =
      2 ^ n.toNat * (x.toNat % 2 ^ (32 - n.toNat)) + x.toNat / 2 ^ (32 - n.toNat) := by
  have hback : (32 - n).toNat = 32 - n.toNat :=
    UInt32.toNat_sub_of_le _ _ (UInt32.le_iff_toNat_le.mpr (Nat.le_of_lt hlt))
  have hshift : 32 - n.toNat < 32 := by omega
  rw [rotateLeft, UInt32.toNat_or, UInt32.toNat_shiftLeft, UInt32.toNat_shiftRight, hback,
    Nat.mod_eq_of_lt hlt, Nat.mod_eq_of_lt hshift, Nat.shiftLeft_eq, Nat.shiftRight_eq_div_pow,
    Nat.mul_comm x.toNat, ← two_pow_mul_two_pow hlt, Nat.mul_mod_mul_left,
    Nat.two_pow_add_eq_or_of_lt (div_lt_two_pow hlt x)]

/-- **A rotation drops no bit**, since what leaves at one end comes in at the other. -/
theorem rotateLeft_injective (hpos : 0 < n.toNat) (hlt : n.toNat < 32) :
    Function.Injective fun x => rotateLeft x n := by
  have hlower (x : UInt32) :
      (rotateLeft x n).toNat / 2 ^ n.toNat = x.toNat % 2 ^ (32 - n.toNat) := by
    rw [toNat_rotateLeft hpos hlt, Nat.mul_add_div (Nat.two_pow_pos _),
      Nat.div_eq_of_lt (div_lt_two_pow hlt x), Nat.add_zero]
  have hupper (x : UInt32) :
      (rotateLeft x n).toNat % 2 ^ n.toNat = x.toNat / 2 ^ (32 - n.toNat) := by
    rw [toNat_rotateLeft hpos hlt, Nat.mul_add_mod, Nat.mod_eq_of_lt (div_lt_two_pow hlt x)]
  intro x y h
  have hrotated : rotateLeft x n = rotateLeft y n := h
  have hdiv : x.toNat / 2 ^ (32 - n.toNat) = y.toNat / 2 ^ (32 - n.toNat) := by
    rw [← hupper x, ← hupper y, hrotated]
  have hmod : x.toNat % 2 ^ (32 - n.toNat) = y.toNat % 2 ^ (32 - n.toNat) := by
    rw [← hlower x, ← hlower y, hrotated]
  rw [← UInt32.toNat_inj, ← Nat.div_add_mod x.toNat, hdiv, hmod, Nat.div_add_mod]

/-- **A word is known by its sum with itself shifted down.** -/
theorem xorShift_injective (hpos : 0 < n.toNat % 32) :
    Function.Injective fun x : UInt32 => x ^^^ (x >>> n) := by
  intro x y h
  -- What two such words differ by is not changed by the shift, which makes all but zero smaller.
  have hsum : (x ^^^ y) ^^^ ((x >>> n) ^^^ (y >>> n)) = 0 :=
    calc (x ^^^ y) ^^^ ((x >>> n) ^^^ (y >>> n))
        = (x ^^^ (x >>> n)) ^^^ (y ^^^ (y >>> n)) := by ac_rfl
      _ = 0 := UInt32.xor_eq_zero_iff.mpr h
  have hfixed : (x ^^^ y).toNat / 2 ^ (n.toNat % 32) = (x ^^^ y).toNat := by
    rw [← Nat.shiftRight_eq_div_pow, ← UInt32.toNat_shiftRight, UInt32.shiftRight_xor,
      ← UInt32.xor_eq_zero_iff.mp hsum]
  have hzero : (x ^^^ y).toNat = 0 := by
    by_contra hne
    have hsmaller := Nat.div_lt_self (Nat.pos_of_ne_zero hne) (Nat.one_lt_two_pow hpos.ne')
    omega
  exact UInt32.xor_eq_zero_iff.mp (UInt32.toNat_inj.mp hzero)

end

/-- The state before a word of data is known from the state behind it. -/
theorem mix_injective (k : UInt32) : Function.Injective fun h => mix h k := by
  intro h h' hmix
  have hproduct := (UInt32.add_left_inj _).mp hmix
  have hrotated := mul_injective (by decide) hproduct
  have hsum := rotateLeft_injective (by decide) (by decide) hrotated
  exact (UInt32.xor_left_inj _).mp hsum

/-- **The state before some data is known from the state behind it**, whatever its length. -/
theorem absorb_injective : ∀ data : Bytes, Function.Injective fun h => absorb h data
  | _ :: _ :: _ :: _ :: rest => (absorb_injective rest).comp (mix_injective _)
  -- The bytes left over are added to the state as one word, however many there are.
  | [_, _, _] => fun _ _ h => (UInt32.xor_left_inj _).mp h
  | [_, _] => fun _ _ h => (UInt32.xor_left_inj _).mp h
  | [_] => fun _ _ h => (UInt32.xor_left_inj _).mp h
  | [] => Function.injective_id

/-- **The state is known from the result**, as every step of the finish can be undone. -/
theorem finish_injective : Function.Injective finish := by
  intro h h' hfinish
  -- The three sums are taken back from the last to the first.
  have hthird := xorShift_injective (by decide) hfinish
  have hsecond := xorShift_injective (by decide) (mul_injective (by decide) hthird)
  exact xorShift_injective (by decide) (mul_injective (by decide) hsecond)

end Murmur3

/-- On one item no two seeds give the same value.  Each step of the mixing can be undone, and the
item is the same on both sides. -/
theorem murmur3_injective (data : Bytes) : Function.Injective (murmur3 data) := by
  intro seed seed' h
  have hstate := (UInt32.xor_left_inj _).mp (Murmur3.finish_injective h)
  exact Murmur3.absorb_injective data hstate

/-- **Every word is the hash of the data under exactly one seed.** -/
theorem murmur3_bijective (data : Bytes) : Function.Bijective (murmur3 data) :=
  Finite.injective_iff_bijective.mp (murmur3_injective data)

namespace Bloom

/-- Functions are known by their seeds, as many as there are words. -/
theorem eq_of_seed_eq {tweak : UInt32} {j k : Nat} (hj : j < 2 ^ 32) (hk : k < 2 ^ 32)
    (h : seed tweak j = seed tweak k) : j = k := by
  have hsteps := (UInt32.add_left_inj tweak).mp h
  have hwords := congrArg UInt32.toNat (Murmur3.mul_injective (by decide) hsteps)
  rwa [UInt32.toNat_ofNat_of_lt' hj, UInt32.toNat_ofNat_of_lt' hk] at hwords

/-- The values that the first functions have on an item. -/
def hashes (tweak : UInt32) (functions : Nat) (item : Bytes) : List UInt32 :=
  (List.range functions).map fun k => murmur3 item (seed tweak k)

/-- **No two functions have the same value on an item.** -/
theorem nodup_hashes (tweak : UInt32) {functions : Nat} (hle : functions ≤ maxFunctions)
    (item : Bytes) : (hashes tweak functions item).Nodup := by
  refine List.nodup_range.map_on fun j hj k hk h => ?_
  have hwords : maxFunctions < 2 ^ 32 := by decide
  rw [List.mem_range] at hj hk
  exact eq_of_seed_eq (by omega) (by omega) (murmur3_injective item h)

/-- The values differ, and yet they have the same bit of a field of one byte. -/
example : hashes 0 3 [] = [0, 1782148872, 2690808648] ∧
    (hashes 0 3 []).map (fun hash => hash.toNat % 8) = [0, 0, 0] := by
  decide

end Bloom

namespace BloomFilter

/-- The bits of an item are the values of the functions, brought into the field. -/
theorem bitIndices_eq (f : BloomFilter) (item : Bytes) :
    f.bitIndices item =
      (Bloom.hashes f.tweak f.functions item).map fun hash => hash.toNat % f.bitCount := by
  rw [Bloom.hashes, List.map_map]
  rfl

/-- **The hash functions of a filter differ on every item.**  Every value comes from exactly one
seed, so the fifty functions that a filter may have give an item fifty values, whatever its length
and the tweak are.  The functions that a filter has are the first of these, and the item sets the
bits that their values have in its field. -/
theorem hashes_differ (item : Bytes) :
    Function.Bijective (murmur3 item) ∧
      (∀ tweak : UInt32, ((List.range 50).map fun k =>
        murmur3 item (UInt32.ofNat k * 0xFBA4C795 + tweak)).Nodup) ∧
      ∀ f : BloomFilter, (Bloom.hashes f.tweak f.functions item).Nodup ∧
        f.bitIndices item =
          (Bloom.hashes f.tweak f.functions item).map fun hash => hash.toNat % f.bitCount := by
  refine ⟨murmur3_bijective item, fun tweak => ?_, fun f => ⟨?_, f.bitIndices_eq item⟩⟩
  · exact Bloom.nodup_hashes tweak (Nat.le_refl Bloom.maxFunctions) item
  · exact Bloom.nodup_hashes f.tweak f.functions_le item

end BloomFilter

end LightPeer
