import Mathlib.Data.List.Basic
import LightPeer.Net.Ip

/-!
# Numbers in the texts of addresses

A reader takes all digits that follow each other.  So a number is read from its digits if what
stands behind them is none, and four numbers with dots between them are read as an address of
version 4.  Where the first character behind the front digits is no dot, no such address is read.

* `readDigits_toDigits`, `readNumber?_toDigits` — a number is read from its digits;
* `readV4?_text` — an address of version 4 is read from its text;
* `readV4?_eq_none` — none is read where no dot follows the first number.
-/

namespace LightPeer

namespace Ip

variable {base v : Nat} {c : Char} {cs front rest : List Char}

/-- What stands behind a number does not continue it. -/
def Stops (rest : List Char) : Prop := ∀ c ∈ rest.head?, digitValue? 16 c = none

theorem stops_nil : Stops [] := by
  rintro _ ⟨⟩

/-- A character that is no digit stops a number. -/
theorem stops_cons (h : digitValue? 16 c = none) : Stops (c :: cs) := by
  rintro _ ⟨⟩
  exact h

/-- The digits of a smaller base are digits of base sixteen. -/
theorem digitValue?_eq_none (hbase : base ≤ 16) (h : digitValue? 16 c = none) :
    digitValue? base c = none := by
  simp only [digitValue?, ite_eq_right_iff, reduceCtorEq, imp_false, Nat.not_lt] at h ⊢
  split at h
  · next hdigit =>
    rw [if_pos hdigit]
    omega
  · next hdigit =>
    rw [if_neg hdigit]
    split at h
    · next hlower =>
      rw [if_pos hlower]
      omega
    · next hlower =>
      rw [if_neg hlower]
      split at h
      · next hupper =>
        rw [if_pos hupper]
        omega
      · next hupper => simp only [if_neg hupper, Nat.le_refl]

/-- A number below sixteen is the value of its digit. -/
theorem digitValue?_digitChar (hbase : base ≤ 16) (hv : v < base) :
    digitValue? base v.digitChar = some v := by
  have hall : ∀ base ≤ 16, ∀ v < base, digitValue? base v.digitChar = some v := by decide
  exact hall base hbase v hv

/-- Where a number has stopped no more digits are read. -/
theorem readDigits_of_stops (hbase : base ≤ 16) (count n : Nat) (h : Stops rest) :
    readDigits base count n rest = (count, n, rest) := by
  cases rest with
  | nil => rfl
  | cons c cs => rw [readDigits, digitValue?_eq_none hbase (h c rfl)]

/-- **The digits of a number are taken together**, and what comes behind them is left as it
stands. -/
theorem readDigits_toDigits (hone : 1 < base) (hbase : base ≤ 16) (v count n : Nat)
    (rest : List Char) :
    readDigits base count n (Nat.toDigits base v ++ rest) =
      readDigits base (count + (Nat.toDigits base v).length)
        (base ^ (Nat.toDigits base v).length * n + v) rest := by
  induction v using Nat.strongRecOn generalizing rest with
  | ind v ih =>
    rcases Nat.lt_or_ge v base with hv | hv
    · rw [Nat.toDigits_of_lt_base hv]
      simp only [List.cons_append, List.nil_append, readDigits, digitValue?_digitChar hbase hv,
        List.length_singleton, Nat.pow_one]
    · have hlast := Nat.mod_lt v (Nat.zero_lt_of_lt hone)
      have hdiv := Nat.div_add_mod v base
      rw [Nat.toDigits_of_base_le hone hv, List.append_assoc,
        ih (v / base) (Nat.div_lt_self (by omega) hone)]
      simp only [List.cons_append, List.nil_append, readDigits, digitValue?_digitChar hbase hlast,
        List.length_append, List.length_singleton]
      congr 1
      rw [Nat.pow_succ', Nat.mul_add, Nat.mul_assoc, Nat.add_assoc, hdiv]

/-- A number of more than one digit does not begin with a zero. -/
theorem head?_toDigits (hone : 1 < base) (hbase : base ≤ 16) (hv : 0 < v) :
    (Nat.toDigits base v).head? ≠ some '0' := by
  induction v using Nat.strongRecOn with
  | ind v ih =>
    rcases Nat.lt_or_ge v base with hlt | hge
    · have hdigit : ∀ v < 16, 0 < v → some v.digitChar ≠ some '0' := by decide
      rw [Nat.toDigits_of_lt_base hlt]
      exact hdigit v (by omega) hv
    · have hpos : 0 < v / base := Nat.div_pos hge (by omega)
      rw [Nat.toDigits_of_base_le hone hge, List.head?_append_of_ne_nil _ Nat.toDigits_ne_nil]
      exact ih _ (Nat.div_lt_self (by omega) hone) hpos

/-- A number has no other characters than digits. -/
theorem digitValue?_of_mem (hone : 1 < base) (hbase : base ≤ 16) (h : c ∈ Nat.toDigits base v) :
    digitValue? 16 c ≠ none := by
  have hdigit {d : Nat} (hd : d < base) : digitValue? 16 d.digitChar ≠ none := by
    rw [digitValue?_digitChar (Nat.le_refl 16) (Nat.lt_of_lt_of_le hd hbase)]
    rintro ⟨⟩
  induction v using Nat.strongRecOn with
  | ind v ih =>
    rcases Nat.lt_or_ge v base with hlt | hge
    · rw [Nat.toDigits_of_lt_base hlt, List.mem_singleton] at h
      exact h ▸ hdigit hlt
    · rw [Nat.toDigits_of_base_le hone hge, List.mem_append, List.mem_singleton] at h
      rcases h with h | rfl
      · exact ih _ (Nat.div_lt_self (by omega) hone) h
      · exact hdigit (Nat.mod_lt v (Nat.zero_lt_of_lt hone))

/-- **A number is read from its digits**, up to what does not continue them. -/
theorem readNumber?_toDigits {limit maxDigits : Nat} (leadingZero : Bool) (hone : 1 < base)
    (hbase : base ≤ 16) (hlimit : v < limit) (hfew : (Nat.toDigits base v).length ≤ maxDigits)
    (hstops : Stops rest) :
    readNumber? base limit maxDigits leadingZero (Nat.toDigits base v ++ rest) =
      some (v, rest) := by
  have hpos : (Nat.toDigits base v).length ≠ 0 := by
    rw [Ne, List.length_eq_zero_iff]
    exact Nat.toDigits_ne_nil
  have hread : readDigits base 0 0 (Nat.toDigits base v ++ rest) =
      ((Nat.toDigits base v).length, v, rest) := by
    rw [readDigits_toDigits hone hbase, readDigits_of_stops hbase _ _ hstops, Nat.mul_zero,
      Nat.zero_add, Nat.zero_add]
  have hzero : ¬ ((Nat.toDigits base v ++ rest).head? = some '0' ∧
      1 < (Nat.toDigits base v).length) := by
    rintro ⟨hhead, hlong⟩
    rw [List.head?_append_of_ne_nil _ Nat.toDigits_ne_nil] at hhead
    refine head?_toDigits hone hbase (Nat.pos_of_ne_zero ?_) hhead
    rintro rfl
    exact absurd hlong (by rw [Nat.toDigits_of_lt_base (by omega)]; decide)
  simp only [readNumber?, hread]
  rw [if_neg, if_neg]
  · simp only [Bool.and_eq_true, decide_eq_true_eq]
    rintro ⟨⟨-, hhead⟩, hlong⟩
    exact hzero ⟨hhead, hlong⟩
  · simp only [Bool.or_eq_true, decide_eq_true_eq]
    omega

/-- No number stands where there is no digit, and then nothing is taken either. -/
theorem readNumber?_of_stops {limit maxDigits : Nat} (leadingZero : Bool) (hbase : base ≤ 16)
    (h : Stops rest) : readNumber? base limit maxDigits leadingZero rest = none := by
  simp only [readNumber?, readDigits_of_stops hbase 0 0 h]
  rfl

end Ip

namespace IPv4

/-- An address of version 4 is read back from its bytes. -/
theorem ofBytes_bytes (a : IPv4) : ofBytes a.bytes = a := by
  have hvalue := a.value.toNat_lt
  rw [ofBytes, bytes, Bytes.toNat_ofNat, Nat.mod_eq_of_lt (by omega), UInt32.ofNat_toNat]

/-- Four bytes are read back from the address that they make. -/
theorem bytes_ofBytes {bs : Bytes} (h : bs.length = 4) : (ofBytes bs).bytes = bs := by
  have hlt := Bytes.toNat_lt .big bs
  have hback := Bytes.ofNat_toNat .big bs
  rw [h] at hlt hback
  rw [bytes, ofBytes, UInt32.toNat_ofNat_of_lt' (by simpa [UInt32.size] using hlt), hback]

/-- The text of an address is four decimal numbers between dots. -/
theorem exists_toList_text (a : IPv4) : ∃ b₁ b₂ b₃ b₄ : UInt8, a = ofBytes [b₁, b₂, b₃, b₄] ∧
    a.text.toList = Nat.toDigits 10 b₁.toNat ++ '.' :: (Nat.toDigits 10 b₂.toNat ++ '.' ::
      (Nat.toDigits 10 b₃.toNat ++ '.' :: Nat.toDigits 10 b₄.toNat)) := by
  have hlength : a.bytes.length = 4 := Bytes.length_ofNat ..
  obtain ⟨b₁, b₂, b₃, b₄, hbytes⟩ : ∃ b₁ b₂ b₃ b₄, a.bytes = [b₁, b₂, b₃, b₄] := by
    match h : a.bytes, hlength with
    | [b₁, b₂, b₃, b₄], _ => exact ⟨b₁, b₂, b₃, b₄, rfl⟩
  refine ⟨b₁, b₂, b₃, b₄, by rw [← hbytes, ofBytes_bytes], ?_⟩
  simp only [text, hbytes, String.toList_intercalate, List.map_cons, List.map_nil,
    Nat.toString_eq_repr, Nat.toList_repr, List.intercalate_cons_cons, List.intercalate_singleton,
    List.append_assoc]
  rfl

end IPv4

namespace Ip

variable {c : Char} {front rest : List Char}

/-- The character that is looked for is taken from the front. -/
theorem readChar?_cons (c : Char) (rest : List Char) : readChar? c (c :: rest) = some rest :=
  if_pos rfl

/-- Only that character is taken. -/
theorem eq_of_readChar? {cs : List Char} (h : readChar? c cs = some rest) : cs = c :: rest := by
  cases cs with
  | nil => cases h
  | cons d cs =>
    rw [readChar?] at h
    split at h
    · next heq =>
      cases h
      rw [heq]
    · cases h

/-- **An address of version 4 is read from its text.** -/
theorem readV4?_text (a : IPv4) (hstops : Stops rest) :
    readV4? (a.text.toList ++ rest) = some (a, rest) := by
  obtain ⟨b₁, b₂, b₃, b₄, rfl, htext⟩ := a.exists_toList_text
  have hnumber (b : UInt8) (rest : List Char) (hstops : Stops rest) :
      readNumber? 10 256 3 false (Nat.toDigits 10 b.toNat ++ rest) = some (b.toNat, rest) := by
    have hb := b.toNat_lt
    refine readNumber?_toDigits _ (by decide) (by decide) hb ?_ hstops
    rw [Nat.length_toDigits_le_iff (by decide) (by decide)]
    omega
  have hdot (rest : List Char) : Stops ('.' :: rest) := stops_cons (by decide)
  rw [htext]
  simp only [List.append_assoc, List.cons_append, readV4?, hnumber _ _ (hdot _), hnumber _ _ hstops,
    readChar?_cons, Option.bind_eq_bind, Option.bind_some, UInt8.ofNat_toNat]
  rfl

/-- What stands behind a group does not continue it, and does not make it a part of an address of
version 4. -/
def Ends (rest : List Char) : Prop := Stops rest ∧ rest.head? ≠ some '.'

theorem ends_nil : Ends [] := ⟨stops_nil, by rintro ⟨⟩⟩

/-- A character that is neither a digit nor a dot ends a group. -/
theorem ends_cons (hstops : digitValue? 16 c = none) (hdot : c ≠ '.') : Ends (c :: rest) :=
  ⟨stops_cons hstops, by rintro ⟨⟩; exact hdot rfl⟩

/-- Behind the digits in front of a text no dot stands if none stands in it before its end. -/
theorem head?_readDigits (count n : Nat) (hfront : '.' ∉ front) (hends : Ends rest) :
    (readDigits 10 count n (front ++ rest)).2.2.head? ≠ some '.' := by
  induction front generalizing count n with
  | nil =>
    rw [List.nil_append, readDigits_of_stops (by decide) _ _ hends.1]
    exact hends.2
  | cons c front ih =>
    rw [List.mem_cons, not_or] at hfront
    rw [List.cons_append, readDigits]
    split
    · rintro ⟨⟩
      exact hfront.1 rfl
    · exact ih _ _ hfront.2

/-- **No address of version 4 is read** where no dot follows the first number. -/
theorem readV4?_eq_none (hfront : '.' ∉ front) (hends : Ends rest) :
    readV4? (front ++ rest) = none := by
  have hhead := head?_readDigits 0 0 hfront hends
  have hdot : ∀ {n cs}, readNumber? 10 256 3 false (front ++ rest) = some (n, cs) →
      readChar? '.' cs = none := by
    intro n cs hread
    have hcs : cs = (readDigits 10 0 0 (front ++ rest)).2.2 := by
      simp only [readNumber?] at hread
      split at hread
      · cases hread
      · split at hread
        · cases hread
        · cases hread
          rfl
    cases cs with
    | nil => rfl
    | cons c cs =>
      rw [← hcs] at hhead
      exact if_neg fun h => hhead (congrArg some h)
  rw [readV4?]
  cases hread : readNumber? 10 256 3 false (front ++ rest) with
  | none => rfl
  | some number =>
    obtain ⟨n, cs⟩ := number
    simp only [Option.bind_eq_bind, Option.bind_some, hdot hread, Option.bind_none]

end Ip

end LightPeer
