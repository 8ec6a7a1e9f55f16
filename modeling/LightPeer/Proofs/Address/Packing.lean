import Mathlib.Data.List.Induction
import Mathlib.Data.Nat.ModEq
import LightPeer.Address.Writing

/-!
# Bytes in values of five bits

A row of values is a number to the base 32, and a row of bytes is one to the base 256.  Bytes are
taken out of values one after the other, as soon as there are eight bits; that is a division of the
number, and at the end it must come out even with fewer than five bits to spare.  So exactly the
packed form of some bytes is unpacked, and gives these bytes.

* `numberOf_groups`, `groups_numberOf` — values and their number;
* `regroup_eq_some_iff` — what is left to unpack, with some bits in hand;
* `bytes?_eq_some_iff` — the whole of it.
-/

namespace LightPeer.Bech32

/-- The number that values stand for, the most significant one first. -/
def numberOf (values : List Nat) : Nat := values.foldl (fun n v => 32 * n + v) 0

variable {vs ws : List Nat} {bs : Bytes}

/-- Values behind others stand for a number that is shifted over by as many of them. -/
theorem numberOf_append (vs ws : List Nat) :
    numberOf (vs ++ ws) = numberOf vs * 32 ^ ws.length + numberOf ws := by
  have hfrom : ∀ (ws : List Nat) (n : Nat), ws.foldl (fun n v => 32 * n + v) n =
      n * 32 ^ ws.length + numberOf ws := by
    intro ws
    induction ws with
    | nil =>
      intro n
      exact (Nat.mul_one n).symm
    | cons w ws ih =>
      intro n
      rw [numberOf, List.foldl_cons, List.foldl_cons, ih, ih, List.length_cons, Nat.pow_succ']
      rw [Nat.mul_zero, Nat.zero_add, Nat.add_mul, ← Nat.mul_assoc, Nat.mul_comm n 32]
      exact Nat.add_assoc ..
  rw [numberOf, List.foldl_append, hfrom]
  rfl

/-- The first value is the most significant one. -/
theorem numberOf_cons (v : Nat) (vs : List Nat) :
    numberOf (v :: vs) = v * 32 ^ vs.length + numberOf vs := by
  have happend := numberOf_append [v] vs
  rw [List.singleton_append] at happend
  rw [happend, numberOf, List.foldl_cons, List.foldl_nil, Nat.mul_zero, Nat.zero_add]

/-- Each value is a digit to the base of thirty-two. -/
theorem numberOf_lt (h : ∀ v ∈ vs, v < 32) : numberOf vs < 32 ^ vs.length := by
  induction vs with
  | nil => exact Nat.one_pos
  | cons v vs ih =>
    obtain ⟨hv, hvs⟩ := List.forall_mem_cons.mp h
    have hrest := ih hvs
    have hfirst : (v + 1) * 32 ^ vs.length ≤ 32 * 32 ^ vs.length := Nat.mul_le_mul_right _ hv
    rw [numberOf_cons, List.length_cons, Nat.pow_succ']
    rw [Nat.succ_mul] at hfirst
    omega

/-- As many groups come of a number as are asked for. -/
theorem length_groups (n m : Nat) : (groups n m).length = n := by
  induction n generalizing m with
  | zero => rfl
  | succ n ih => rw [groups, List.length_append, ih, List.length_singleton]

/-- A group of five bits is less than thirty-two. -/
theorem lt_of_mem_groups {n m v : Nat} (h : v ∈ groups n m) : v < 32 := by
  induction n generalizing m with
  | zero => cases h
  | succ n ih =>
    rcases List.mem_append.mp h with hfront | hlast
    · exact ih hfront
    · rw [List.mem_singleton.mp hlast]
      exact Nat.mod_lt _ (by decide)

/-- A number is that of its values, if there are enough of them. -/
theorem numberOf_groups {n m : Nat} (h : m < 32 ^ n) : numberOf (groups n m) = m := by
  induction n generalizing m with
  | zero =>
    rw [Nat.pow_zero] at h
    exact (Nat.lt_one_iff.mp h).symm
  | succ n ih =>
    have hfront : m / 32 < 32 ^ n := Nat.div_lt_of_lt_mul (by rwa [← Nat.pow_succ'])
    have hlast : numberOf [m % 32] = m % 32 := Nat.zero_add _
    rw [groups, numberOf_append, ih hfront, hlast, List.length_singleton, Nat.pow_one]
    exact Nat.div_add_mod' m 32

/-- Values are those of their number, and so nothing is lost when they are taken together. -/
theorem groups_numberOf (h : ∀ v ∈ vs, v < 32) : groups vs.length (numberOf vs) = vs := by
  induction vs using List.reverseRecOn with
  | nil => rfl
  | append_singleton vs v ih =>
    have hv : v < 32 := h v (by simp)
    have hfront := ih fun w hw => h w (List.mem_append_left _ hw)
    have hnumber : numberOf (vs ++ [v]) = numberOf vs * 32 + v := by
      rw [numberOf_append, List.length_singleton, Nat.pow_one]
      exact congrArg _ (Nat.zero_add v)
    have hdiv : (numberOf vs * 32 + v) / 32 = numberOf vs := by omega
    have hmod : (numberOf vs * 32 + v) % 32 = v := by omega
    rw [List.length_append, List.length_singleton, groups, hnumber, hdiv, hmod, hfront]

/-- Bytes behind others are more significant, where the least significant byte is the first. -/
theorem toNatLittle_append (as bs : Bytes) :
    Bytes.toNatLittle (as ++ bs) =
      Bytes.toNatLittle as + 256 ^ as.length * Bytes.toNatLittle bs := by
  induction as with
  | nil => simp [Bytes.toNatLittle]
  | cons a as ih =>
    rw [List.cons_append, Bytes.toNatLittle, Bytes.toNatLittle, ih, List.length_cons,
      Nat.pow_succ', Nat.mul_add, Nat.mul_assoc, Nat.add_assoc]

/-- The first byte is the most significant one, where the order is that of the network. -/
theorem toNat_big_cons (b : UInt8) (bs : Bytes) :
    Bytes.toNat .big (b :: bs) = b.toNat * 256 ^ bs.length + Bytes.toNat .big bs := by
  have hsingle : Bytes.toNatLittle [b] = b.toNat := rfl
  rw [Bytes.toNat, List.reverse_cons, toNatLittle_append, List.length_reverse, hsingle,
    Nat.mul_comm, Nat.add_comm]
  rfl

/-- Division with remainder has one result, which is why bytes can be told from the number that they
stand for. -/
theorem eq_of_mul_add_eq {d q q' r r' : Nat} (hr : r < d) (hr' : r' < d)
    (h : q * d + r = q' * d + r') : q = q' ∧ r = r' := by
  have hd : 0 < d := Nat.zero_lt_of_lt hr
  have hone : (q * d + r) / d = q ∧ (q * d + r) % d = r :=
    (Nat.div_mod_unique hd).mpr ⟨by rw [Nat.mul_comm, Nat.add_comm], hr⟩
  have hother : (q * d + r) / d = q' ∧ (q * d + r) % d = r' :=
    (Nat.div_mod_unique hd).mpr ⟨by rw [Nat.mul_comm, Nat.add_comm, ← h], hr'⟩
  exact ⟨hone.1.symm.trans hother.1, hone.2.symm.trans hother.2⟩

/-- Some bits in hand and values behind them are the bits of some bytes, and fewer than five zero
bits that fill the last value up. -/
def Packs (acc bits : Nat) (vs : List Nat) (bs : Bytes) : Prop :=
  ∃ pad, pad < 5 ∧ bits + 5 * vs.length = 8 * bs.length + pad ∧
    acc * 32 ^ vs.length + numberOf vs = Bytes.toNat .big bs * 2 ^ pad

variable {acc bits : Nat}

/-- A value that does not make the eight bits full is added to those in hand. -/
theorem packs_cons (v : Nat) :
    Packs acc bits (v :: vs) bs ↔ Packs (acc * 32 + v) (bits + 5) vs bs := by
  have hnumber : acc * 32 ^ (v :: vs).length + numberOf (v :: vs) =
      (acc * 32 + v) * 32 ^ vs.length + numberOf vs := by
    rw [numberOf_cons, List.length_cons, Nat.pow_succ', Nat.add_mul, Nat.mul_assoc, Nat.add_assoc]
  have hlength : bits + 5 * (v :: vs).length = bits + 5 + 5 * vs.length := by
    rw [List.length_cons]
    omega
  rw [Packs, Packs, hnumber, hlength]

/-- Eight bits and more are the first byte and what is left. -/
theorem packs_byte (hvs : ∀ v ∈ vs, v < 32) (b : UInt8) :
    Packs acc (bits + 8) vs (b :: bs) ↔
      acc / 2 ^ bits = b.toNat ∧ Packs (acc % 2 ^ bits) bits vs bs := by
  have hsum : acc * 32 ^ vs.length + numberOf vs =
      acc / 2 ^ bits * 2 ^ (bits + 5 * vs.length) +
        (acc % 2 ^ bits * 32 ^ vs.length + numberOf vs) := by
    have hacc := Nat.div_add_mod' acc (2 ^ bits)
    have hpow : 2 ^ (bits + 5 * vs.length) = 2 ^ bits * 32 ^ vs.length := by
      rw [Nat.pow_add, Nat.pow_mul]
    calc acc * 32 ^ vs.length + numberOf vs
        = (acc / 2 ^ bits * 2 ^ bits + acc % 2 ^ bits) * 32 ^ vs.length + numberOf vs := by
          rw [hacc]
      _ = _ := by rw [hpow, Nat.add_mul, Nat.mul_assoc, Nat.add_assoc]
  have hbytes (pad : Nat) : Bytes.toNat .big (b :: bs) * 2 ^ pad =
      b.toNat * 2 ^ (8 * bs.length + pad) + Bytes.toNat .big bs * 2 ^ pad := by
    have hpow : 2 ^ (8 * bs.length + pad) = 256 ^ bs.length * 2 ^ pad := by
      rw [Nat.pow_add, Nat.pow_mul]
    rw [toNat_big_cons, Nat.add_mul, hpow, Nat.mul_assoc]
  have hlength (pad : Nat) : bits + 8 + 5 * vs.length = 8 * (b :: bs).length + pad ↔
      bits + 5 * vs.length = 8 * bs.length + pad := by
    rw [List.length_cons]
    omega
  constructor
  · intro ⟨pad, hpad, hlen, hnumber⟩
    have hrest := (hlength pad).mp hlen
    rw [hsum, hbytes, hrest] at hnumber
    -- Both sides are a quotient and a remainder by the place value of the first byte.
    have hleft : acc % 2 ^ bits * 32 ^ vs.length + numberOf vs < 2 ^ (8 * bs.length + pad) := by
      have hmod : acc % 2 ^ bits + 1 ≤ 2 ^ bits := Nat.mod_lt _ (Nat.two_pow_pos bits)
      have hscaled := Nat.mul_le_mul_right (32 ^ vs.length) hmod
      have hvalues := numberOf_lt hvs
      rw [← hrest, Nat.pow_add, Nat.pow_mul]
      rw [Nat.succ_mul] at hscaled
      exact Nat.lt_of_lt_of_le (Nat.add_lt_add_left hvalues _) hscaled
    have hright : Bytes.toNat .big bs * 2 ^ pad < 2 ^ (8 * bs.length + pad) := by
      rw [Nat.pow_add, Nat.pow_mul]
      exact Nat.mul_lt_mul_of_pos_right (Bytes.toNat_lt .big bs) (Nat.two_pow_pos pad)
    obtain ⟨hfirst, hleftover⟩ := eq_of_mul_add_eq hleft hright hnumber
    exact ⟨hfirst, pad, hpad, hrest, hleftover⟩
  · intro ⟨hfirst, pad, hpad, hrest, hnumber⟩
    refine ⟨pad, hpad, (hlength pad).mpr hrest, ?_⟩
    rw [hsum, hbytes, hrest, hfirst, hnumber]

/-- Eight bits in hand are a byte, so they cannot be all that is left when there are no more
bytes. -/
theorem not_packs_nil : ¬ Packs acc (bits + 8) vs [] := by
  intro ⟨pad, hpad, hlength, _⟩
  rw [List.length_nil] at hlength
  omega

/-- Without values there must be fewer than five bits in hand, all of them zero. -/
theorem packs_nil (hbits : bits < 8) :
    Packs acc bits [] bs ↔ (bits < 5 ∧ acc = 0) ∧ bs = [] := by
  have hnumber : acc * 32 ^ ([] : List Nat).length + numberOf [] = acc := Nat.mul_one acc
  rw [Packs, hnumber, List.length_nil, Nat.mul_zero, Nat.add_zero]
  constructor
  · intro hpacks
    obtain ⟨pad, hpad, hlength, hsum⟩ := hpacks
    have hnone : bs = [] := List.eq_nil_of_length_eq_zero (by omega)
    rw [hnone, Bytes.toNat] at hsum
    rw [hnone, List.length_nil] at hlength
    exact ⟨⟨by omega, hsum.trans (Nat.zero_mul _)⟩, hnone⟩
  · intro hfit
    obtain ⟨⟨hfew, hzero⟩, hnone⟩ := hfit
    refine ⟨bits, hfew, ?_, ?_⟩
    · rw [hnone, List.length_nil, Nat.mul_zero, Nat.zero_add]
    · rw [hnone, hzero]
      exact (Nat.zero_mul _).symm

/-- **What is left unpacks to exactly the bytes that it packs.** -/
theorem regroup_eq_some_iff (hacc : acc < 2 ^ bits) (hbits : bits < 8) (hvs : ∀ v ∈ vs, v < 32) :
    regroup acc bits vs = some bs ↔ Packs acc bits vs bs := by
  induction vs generalizing acc bits bs with
  | nil =>
    rw [packs_nil hbits, regroup, Nat.mod_eq_of_lt hacc]
    split
    · next heven => simp [heven, eq_comm]
    · next hodd => simp [hodd]
  | cons v vs ih =>
    obtain ⟨hv, hvs⟩ := List.forall_mem_cons.mp hvs
    have hacc' : acc * 32 + v < 2 ^ (bits + 5) := by
      rw [Nat.pow_add]
      omega
    rw [regroup, packs_cons]
    dsimp only
    split
    · next hfew => exact ih hacc' hfew hvs
    · next hmany =>
      obtain ⟨left, rfl⟩ : ∃ left, bits = left + 3 := ⟨bits - 3, by omega⟩
      have hleft : left + 3 + 5 - 8 = left := by omega
      have hbyte : (acc * 32 + v) / 2 ^ left < 256 := by
        rw [Nat.pow_add, Nat.pow_add, Nat.mul_assoc] at hacc'
        exact Nat.div_lt_of_lt_mul hacc'
      have hrest (bs : Bytes) : regroup ((acc * 32 + v) % 2 ^ left) left vs = some bs ↔
          Packs ((acc * 32 + v) % 2 ^ left) left vs bs :=
        ih (Nat.mod_lt _ (Nat.two_pow_pos left)) (by omega) hvs
      have hfirst (b : UInt8) :
          UInt8.ofNat ((acc * 32 + v) / 2 ^ left) = b ↔ (acc * 32 + v) / 2 ^ left = b.toNat := by
        rw [← UInt8.toNat_inj, UInt8.toNat_ofNat_of_lt' hbyte]
      rw [hleft]
      show _ ↔ Packs (acc * 32 + v) (left + 8) vs bs
      cases bs with
      | nil =>
        refine iff_of_false ?_ not_packs_nil
        split <;> nofun
      | cons b bs =>
        rw [packs_byte hvs, ← hfirst, ← hrest]
        cases regroup ((acc * 32 + v) % 2 ^ left) left vs <;> simp

/-- The number of values depends on the number of bytes alone. -/
theorem length_pack (bs : Bytes) : (pack bs).length = packedLength bs.length := length_groups ..

/-- Each value that bytes are packed into is one that a symbol stands for. -/
theorem lt_of_mem_pack {v : Nat} (h : v ∈ pack bs) : v < 32 := lt_of_mem_groups h

/-- Bytes and the values that they are packed into stand for the same number, but for the zero bits
that fill the last value up. -/
theorem numberOf_pack (bs : Bytes) :
    numberOf (pack bs) =
      Bytes.toNat .big bs * 2 ^ (5 * packedLength bs.length - 8 * bs.length) := by
  refine numberOf_groups ?_
  have henough : 8 * bs.length + (5 * packedLength bs.length - 8 * bs.length) =
      5 * packedLength bs.length := by
    rw [packedLength]
    omega
  have hpow : 32 ^ packedLength bs.length =
      256 ^ bs.length * 2 ^ (5 * packedLength bs.length - 8 * bs.length) := by
    calc 32 ^ packedLength bs.length
        = 2 ^ (5 * packedLength bs.length) := (Nat.pow_mul 2 5 _).symm
      _ = 2 ^ (8 * bs.length + (5 * packedLength bs.length - 8 * bs.length)) := by rw [henough]
      _ = _ := by rw [Nat.pow_add, Nat.pow_mul 2 8]
  rw [hpow]
  exact Nat.mul_lt_mul_of_pos_right (Bytes.toNat_lt .big bs) (Nat.two_pow_pos _)

/-- **Bytes are unpacked from their packed form and from nothing else.** -/
theorem bytes?_eq_some_iff (hvs : ∀ v ∈ vs, v < 32) : bytes? vs = some bs ↔ vs = pack bs := by
  rw [bytes?, regroup_eq_some_iff Nat.one_pos (by decide) hvs]
  constructor
  · intro ⟨pad, hpad, hlength, hnumber⟩
    have hcount : packedLength bs.length = vs.length := by
      rw [packedLength]
      omega
    have hfill : 5 * packedLength bs.length - 8 * bs.length = pad := by omega
    rw [Nat.zero_mul, Nat.zero_add] at hnumber
    rw [pack, hfill, hcount, ← hnumber, groups_numberOf hvs]
  · intro hpack
    refine ⟨5 * packedLength bs.length - 8 * bs.length, ?_, ?_, ?_⟩
    · rw [packedLength]
      omega
    · rw [hpack, length_pack, packedLength]
      omega
    · rw [hpack, numberOf_pack, Nat.zero_mul, Nat.zero_add]

end LightPeer.Bech32
