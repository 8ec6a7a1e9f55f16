import LightPeer.Proofs.Address.Packing

/-!
# The checksum of Bech32

The remainder of a row of values is linear in the last six of them: they are added to the remainder
that six zeros would leave, one behind the other without touching.  So for every constant there is
exactly one row of six values that makes the remainder this constant, and that is how the checksum
of a variant is found.

* `polymodStep_xor` — a step moves the five lowest places of a difference up;
* `foldl_polymodStep_xor` — so do six steps with six values;
* `variant?_eq_some_iff` — the variant of values is that of their checksum.
-/

namespace LightPeer.Bech32

/-- What one of the bits that leave the remainder at the top does to it. -/
def feed (top r : UInt32) (g : UInt32 × Nat) : UInt32 :=
  if (top >>> UInt32.ofNat g.2) &&& 1 = 1 then r ^^^ g.1 else r

/-- What all of these bits put back into the remainder. -/
def feedback (top : UInt32) : UInt32 := generator.zipIdx.foldl (feed top) 0

/-- What is put back does not depend on what it is put back into. -/
theorem foldl_feed_xor (top a b : UInt32) (gs : List (UInt32 × Nat)) :
    gs.foldl (feed top) (a ^^^ b) = a ^^^ gs.foldl (feed top) b := by
  induction gs generalizing b with
  | nil => rfl
  | cons g gs ih =>
    rw [List.foldl_cons, List.foldl_cons, feed, feed]
    split
    · rw [UInt32.xor_assoc, ih]
    · exact ih b

/-- A step moves the remainder up by a place, adds the value, and feeds back what has left. -/
theorem polymodStep_eq (remainder : UInt32) (value : Nat) :
    polymodStep remainder value =
      ((remainder &&& 0x1ffffff) <<< 5) ^^^ UInt32.ofNat value ^^^ feedback (remainder >>> 25) := by
  have hzero := foldl_feed_xor (remainder >>> 25)
    (((remainder &&& 0x1ffffff) <<< 5) ^^^ UInt32.ofNat value) 0 generator.zipIdx
  rw [UInt32.xor_zero] at hzero
  exact hzero

variable {m v : Nat}

/-- Six places fit into a word. -/
theorem toNat_ofNat (hm : m < 2 ^ 30) : (UInt32.ofNat m).toNat = m :=
  UInt32.toNat_ofNat_of_lt' (Nat.lt_trans hm (by decide))

/-- A number and a value behind it do not touch. -/
theorem place_xor (hm : m < 2 ^ 25) (hv : v < 2 ^ 5) :
    (UInt32.ofNat m <<< 5) ^^^ UInt32.ofNat v = UInt32.ofNat (32 * m + v) := by
  have hshift : (UInt32.ofNat m <<< 5).toNat = 2 ^ 5 * m := by
    rw [UInt32.toNat_shiftLeft, toNat_ofNat (by omega)]
    show m <<< 5 % 2 ^ 32 = _
    rw [Nat.shiftLeft_eq, Nat.mod_eq_of_lt (by omega), Nat.mul_comm]
  have hxor : 2 ^ 5 * m ^^^ v = 2 ^ 5 * m + v := by
    apply Nat.eq_of_testBit_eq
    intro i
    rw [Nat.testBit_two_pow_mul_add m hv, Nat.testBit_xor, Nat.testBit_two_pow_mul]
    split
    · next hlow => simp [Nat.not_le.mpr hlow]
    · next hhigh =>
      have hbit : v.testBit i = false :=
        Nat.testBit_lt_two_pow (Nat.lt_of_lt_of_le hv (Nat.pow_le_pow_right (by decide) (by omega)))
      simp [Nat.le_of_not_lt hhigh, hbit]
  rw [← UInt32.toNat_inj, UInt32.toNat_xor, hshift, toNat_ofNat (by omega), toNat_ofNat (by omega),
    hxor]

/-- Nothing of a small number has left at the top. -/
theorem ofNat_shiftRight (hm : m < 2 ^ 25) : UInt32.ofNat m >>> 25 = 0 := by
  rw [← UInt32.toNat_inj, UInt32.toNat_shiftRight, toNat_ofNat (by omega)]
  show m >>> 25 = 0
  rw [Nat.shiftRight_eq_div_pow]
  exact Nat.div_eq_of_lt hm

/-- The lower places of a sum with a small number. -/
theorem xor_and (a : UInt32) (hm : m < 2 ^ 25) :
    (a ^^^ UInt32.ofNat m) &&& 0x1ffffff = (a &&& 0x1ffffff) ^^^ UInt32.ofNat m := by
  have hmask (n : Nat) : n &&& 0x1ffffff = n % 2 ^ 25 := Nat.and_two_pow_sub_one_eq_mod n 25
  have hsmall : (UInt32.ofNat m).toNat = m := toNat_ofNat (by omega)
  rw [← UInt32.toNat_inj, UInt32.toNat_and, UInt32.toNat_xor, UInt32.toNat_xor, UInt32.toNat_and,
    hsmall]
  show (a.toNat ^^^ m) &&& 0x1ffffff = (a.toNat &&& 0x1ffffff) ^^^ m
  rw [hmask, hmask, Nat.xor_mod_two_pow, Nat.mod_eq_of_lt hm]

/-- **A step moves a difference in the lower places up** and adds the value to it. -/
theorem polymodStep_xor (a : UInt32) (hm : m < 2 ^ 25) (hv : v < 32) :
    polymodStep (a ^^^ UInt32.ofNat m) v = polymodStep a 0 ^^^ UInt32.ofNat (32 * m + v) := by
  have hzero : UInt32.ofNat 0 = 0 := rfl
  rw [polymodStep_eq, polymodStep_eq, UInt32.shiftRight_xor, ofNat_shiftRight hm, UInt32.xor_zero,
    xor_and a hm, UInt32.shiftLeft_xor, ← place_xor hm hv, hzero, UInt32.xor_zero]
  -- The same five terms in another order.
  simp only [UInt32.xor_assoc, UInt32.xor_comm (feedback _)]

/-- Steps that leave a number in six places add it to the remainder of zeros. -/
theorem foldl_polymodStep_xor {vs : List Nat} (a : UInt32) (hvs : ∀ v ∈ vs, v < 32)
    (hroom : m < 32 ^ (6 - vs.length)) (hsix : vs.length ≤ 6) :
    vs.foldl polymodStep (a ^^^ UInt32.ofNat m) =
      (List.replicate vs.length 0).foldl polymodStep a ^^^
        UInt32.ofNat (m * 32 ^ vs.length + numberOf vs) := by
  induction vs generalizing a m with
  | nil =>
    have hnumber : m * 32 ^ ([] : List Nat).length + numberOf [] = m := Nat.mul_one m
    rw [hnumber]
    rfl
  | cons v vs ih =>
    obtain ⟨hv, hvs⟩ := List.forall_mem_cons.mp hvs
    rw [List.length_cons] at hroom hsix
    have hplaces : 6 - vs.length = 6 - (vs.length + 1) + 1 := by omega
    have hroom' : 32 * m + v < 32 ^ (6 - vs.length) := by
      rw [hplaces, Nat.pow_succ]
      omega
    have hm : m < 2 ^ 25 :=
      calc m < 32 ^ (6 - (vs.length + 1)) := hroom
        _ ≤ 32 ^ 5 := Nat.pow_le_pow_right (by decide) (by omega)
    have hnumber : (32 * m + v) * 32 ^ vs.length + numberOf vs =
        m * 32 ^ (v :: vs).length + numberOf (v :: vs) := by
      rw [numberOf_cons, List.length_cons, Nat.pow_succ', Nat.add_mul, Nat.mul_comm 32 m,
        Nat.mul_assoc, Nat.add_assoc]
    rw [List.foldl_cons, polymodStep_xor a hm hv, ih _ hvs hroom' (by omega), hnumber,
      List.length_cons, List.replicate_succ, List.foldl_cons]

/-- The remainder stays within thirty bits, since that is the width of all that is put back. -/
theorem feed_lt {top r : UInt32} {g : UInt32 × Nat} (hr : r.toNat < 2 ^ 30)
    (hg : g.1.toNat < 2 ^ 30) : (feed top r g).toNat < 2 ^ 30 := by
  rw [feed]
  split
  · rw [UInt32.toNat_xor]
    exact Nat.xor_lt_two_pow hr hg
  · exact hr

/-- So it does after all of the top bits. -/
theorem foldl_feed_lt {top r : UInt32} {gs : List (UInt32 × Nat)} (hr : r.toNat < 2 ^ 30)
    (hgs : ∀ g ∈ gs, g.1.toNat < 2 ^ 30) : (gs.foldl (feed top) r).toNat < 2 ^ 30 := by
  induction gs generalizing r with
  | nil => exact hr
  | cons g gs ih =>
    obtain ⟨hg, hgs⟩ := List.forall_mem_cons.mp hgs
    exact ih (feed_lt hr hg) hgs

/-- A remainder has six places, since what would be a seventh is put back in by the generator. -/
theorem polymodStep_lt (remainder : UInt32) (hv : v < 2 ^ 30) :
    (polymodStep remainder v).toNat < 2 ^ 30 := by
  refine foldl_feed_lt ?_ (by decide)
  have hmask : (remainder &&& 0x1ffffff).toNat < 2 ^ 25 := by
    rw [UInt32.toNat_and]
    exact Nat.and_lt_two_pow _ (by decide)
  have hshift : ((remainder &&& 0x1ffffff) <<< 5).toNat < 2 ^ 30 := by
    rw [UInt32.toNat_shiftLeft]
    show (remainder &&& 0x1ffffff).toNat <<< 5 % 2 ^ 32 < _
    rw [Nat.shiftLeft_eq]
    omega
  rw [UInt32.toNat_xor, toNat_ofNat hv]
  exact Nat.xor_lt_two_pow hshift hv

variable {readable : List Char} {values check : List Nat} {variant : Variant}

/-- The constants of both variants are within thirty bits. -/
theorem constant_lt (variant : Variant) : variant.constant.toNat < 2 ^ 30 := by
  cases variant <;> decide

/-- A checksum of six values holds all that a remainder can be. -/
theorem polymod_zeros_lt (values : List Nat) :
    (polymod (values ++ List.replicate 6 0)).toNat < 2 ^ 30 := by
  have hlast : values ++ List.replicate 6 0 = values ++ List.replicate 5 0 ++ [0] := by
    rw [List.append_assoc]
    rfl
  rw [polymod, hlast, List.foldl_append]
  exact polymodStep_lt _ (by decide)

/-- The last six values are added to the remainder. -/
theorem polymod_append (values : List Nat) (hlength : check.length = 6)
    (hcheck : ∀ v ∈ check, v < 32) :
    polymod (values ++ check) =
      polymod (values ++ List.replicate 6 0) ^^^ UInt32.ofNat (numberOf check) := by
  have hsteps := foldl_polymodStep_xor (values.foldl polymodStep 1) hcheck (m := 0)
    (Nat.pow_pos (by decide)) (Nat.le_of_eq hlength)
  have hzero : UInt32.ofNat 0 = 0 := rfl
  rw [hzero, UInt32.xor_zero, Nat.zero_mul, Nat.zero_add, hlength] at hsteps
  rw [polymod, polymod, List.foldl_append, List.foldl_append, hsteps]

/-- The variant is the one whose constant is left when all values with their checksum are
divided. -/
theorem variant?_eq_some_iff_remainder :
    variant? readable values = some variant ↔
      polymod (expand readable ++ values) = variant.constant := by
  rw [variant?]
  constructor
  · intro hvariant
    split at hvariant
    · next hleft =>
      cases hvariant
      exact hleft
    · split at hvariant
      · next hleft =>
        cases hvariant
        exact hleft
      · cases hvariant
  · intro hleft
    rw [hleft]
    cases variant <;> rfl

/-- **The variant of values is the one whose checksum they end in.** -/
theorem variant?_eq_some_iff (hlength : check.length = 6) (hcheck : ∀ v ∈ check, v < 32) :
    variant? readable (values ++ check) = some variant ↔
      check = checksumOf variant readable values := by
  rw [variant?_eq_some_iff_remainder, ← List.append_assoc, polymod_append _ hlength hcheck,
    checksumOf]
  have hzeros := polymod_zeros_lt (expand readable ++ values)
  generalize polymod (expand readable ++ values ++ List.replicate 6 0) = zeros at hzeros ⊢
  have hnumber : numberOf check < 2 ^ 30 := by
    have hlt := numberOf_lt hcheck
    rw [hlength] at hlt
    exact hlt
  have hsum : (zeros ^^^ variant.constant).toNat < 32 ^ 6 := by
    rw [UInt32.toNat_xor]
    exact Nat.xor_lt_two_pow hzeros (constant_lt variant)
  constructor
  · intro hleft
    have hdifference : UInt32.ofNat (numberOf check) = zeros ^^^ variant.constant := by
      rw [← hleft, ← UInt32.xor_assoc, UInt32.xor_self, UInt32.zero_xor]
    rw [← hdifference, toNat_ofNat hnumber, ← hlength, groups_numberOf hcheck]
  · intro hgroups
    rw [hgroups, numberOf_groups hsum, UInt32.ofNat_toNat, ← UInt32.xor_assoc, UInt32.xor_self,
      UInt32.zero_xor]

end LightPeer.Bech32
