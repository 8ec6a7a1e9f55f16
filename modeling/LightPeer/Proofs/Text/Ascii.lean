import Mathlib.Tactic.SplitIfs
import LightPeer.Proofs.Text.Utf8

/-!
# Texts of ASCII

A text is read from any bytes, and ill-formed ones give replacement characters.  None of these is
a character of ASCII, and neither is one that takes more than one byte: the first byte of it sets
so many bits, or asks so much of the second, that the number comes out too large.  So a text all
of whose characters are of ASCII can have been read only from its own bytes.

* `long_of_lead` — what a first byte promises;
* `Reader.exists_not_isPlain` — a character that was begun is not one of ASCII;
* `decodeLossy_eq_iff` — a text of ASCII is read from its own bytes only.
-/

namespace LightPeer.Utf8

/-- A character of ASCII other than the zero character. -/
def IsPlain (c : Char) : Prop := 0 < c.toNat ∧ c.toNat < 0x80

instance (c : Char) : Decidable (IsPlain c) := inferInstanceAs (Decidable (_ ∧ _))

/-- The number of a character that was begun will not be small enough for ASCII. -/
structure Partial.Long (p : Partial) : Prop where
  owed_pos : 0 < p.owed
  low : 0x80 ≤ p.low.toNat
  high : p.high.toNat ≤ 0xBF
  bits : 2 ≤ p.bits ∨ 1 < p.owed ∧ (1 ≤ p.bits ∨ 0x90 ≤ p.low.toNat)

/-- The character for what could not be read is not one of ASCII. -/
theorem not_isPlain_replacement : ¬ IsPlain replacement := by
  rw [IsPlain]
  decide

/-- The number of a character that exists leads back to it. -/
theorem toNat_ofNat {n : Nat} (hvalid : n.isValidChar) : (Char.ofNat n).toNat = n := by
  rw [Char.ofNat, dif_pos hvalid]
  rfl

/-- A number that is too large for ASCII stands for no character of ASCII. -/
theorem not_isPlain_ofNat {n : Nat} (hn : 0x80 ≤ n) : ¬ IsPlain (Char.ofNat n) := by
  intro hplain
  by_cases hvalid : n.isValidChar
  · rw [IsPlain, toNat_ofNat hvalid] at hplain
    omega
  · have hzero : (Char.ofNat n).toNat = 0 := by
      rw [Char.ofNat, dif_neg hvalid]
      rfl
    exact absurd hplain.1 (by omega)

/-- A first byte promises a number that is too large for ASCII. -/
theorem long_of_lead {b : UInt8} {p : Partial} (h : lead b = .begun p) : p.Long := by
  simp only [lead, UInt8.le_iff_toNat_le, ← UInt8.toNat_inj, UInt8.reduceToNat] at h
  -- One case for each kind of first byte; what is left says how large its bits are.
  split_ifs at h <;> cases h <;> constructor <;> simp <;> omega

/-- Only a byte below 128 is a character by itself, and then it is the one of ASCII. -/
theorem of_lead_eq_complete {b : UInt8} {c : Char} (h : lead b = .complete c) :
    b.toNat ≤ 0x7F ∧ c = Char.ofNat b.toNat := by
  simp only [lead, UInt8.le_iff_toNat_le, UInt8.reduceToNat] at h
  split_ifs at h with hone
  cases h
  exact ⟨hone, rfl⟩

/-- A byte of ASCII is its character. -/
theorem utf8EncodeChar_ofNat {b : UInt8} (hb : b.toNat ≤ 0x7F) :
    String.utf8EncodeChar (Char.ofNat b.toNat) = [b] := by
  have hback : (Char.ofNat b.toNat).val.toNat = b.toNat := toNat_ofNat (.inl (by omega))
  rw [String.utf8EncodeChar, hback, if_pos hb, UInt8.ofNat_toNat]

namespace Reader

/-- Nothing that has been read is taken back when a byte begins a character. -/
theorem read_begin (r : Reader) (b : UInt8) : r.read <:+ (r.begin b).read := by
  rw [begin]
  split
  · exact List.suffix_cons ..
  · exact List.suffix_refl _
  · exact List.suffix_cons ..

/-- Nor by any byte that comes. -/
theorem read_push (r : Reader) (b : UInt8) : r.read <:+ (r.push b).read := by
  rw [push]
  split
  · exact r.read_begin b
  · split
    · dsimp only
      split
      · exact List.suffix_cons ..
      · exact List.suffix_refl _
    · have hbegin := read_begin ⟨replacement :: r.read, none, false⟩ b
      exact (List.suffix_cons replacement r.read).trans hbegin

/-- Nor at the end of the bytes. -/
theorem read_finish (r : Reader) : r.read <:+ r.finish.read := by
  rw [finish]
  split
  · exact List.suffix_refl _
  · exact List.suffix_cons ..

/-- The characters at the end of a text. -/
def readTo (r : Reader) (bs : Bytes) : List Char := (bs.foldl push r).finish.read

/-- Nor by any number of bytes. -/
theorem read_readTo (r : Reader) (bs : Bytes) : r.read <:+ r.readTo bs := by
  induction bs generalizing r with
  | nil => exact r.read_finish
  | cons b bs ih => exact (r.read_push b).trans (ih (r.push b))

/-- A longer character, or what is written in place of it, is in the text. -/
theorem exists_not_isPlain {p : Partial} (hlong : p.Long) (read : List Char) (wellFormed : Bool)
    (bs : Bytes) : ∃ c ∈ readTo ⟨read, some p, wellFormed⟩ bs, ¬ IsPlain c := by
  induction bs generalizing p read wellFormed with
  | nil => exact ⟨replacement, List.mem_cons_self, not_isPlain_replacement⟩
  | cons b bs ih =>
    have hstays {c : Char} (hc : c ∈ (push ⟨read, some p, wellFormed⟩ b).read) :
        c ∈ readTo ⟨read, some p, wellFormed⟩ (b :: bs) :=
      (read_readTo (push ⟨read, some p, wellFormed⟩ b) bs).subset hc
    obtain ⟨howed, hlow, hhigh, hbits⟩ := hlong
    by_cases hrange : p.low ≤ b ∧ b ≤ p.high
    · rw [UInt8.le_iff_toNat_le, UInt8.le_iff_toNat_le] at hrange
      by_cases hlast : p.owed = 1
      · refine ⟨Char.ofNat (p.bits * 64 + b.toNat % 64), hstays ?_, not_isPlain_ofNat (by omega)⟩
        simp [push, hrange, hlast, UInt8.le_iff_toNat_le]
      · have hpush : push ⟨read, some p, wellFormed⟩ b =
            ⟨read, some ⟨p.bits * 64 + b.toNat % 64, p.owed - 1, 0x80, 0xBF⟩, wellFormed⟩ := by
          simp [push, hrange, hlast, UInt8.le_iff_toNat_le]
        have hlonger : Partial.Long ⟨p.bits * 64 + b.toNat % 64, p.owed - 1, 0x80, 0xBF⟩ := by
          constructor <;> simp <;> omega
        rw [readTo, List.foldl_cons, hpush]
        exact ih hlonger read wellFormed
    · refine ⟨replacement, hstays ?_, not_isPlain_replacement⟩
      rw [push]
      simp only [if_neg hrange]
      exact (read_begin _ b).subset List.mem_cons_self

/-- Where all characters are of ASCII, the bytes were theirs. -/
theorem exists_readTo_eq {read : List Char} {wellFormed : Bool} {bs : Bytes}
    (hplain : ∀ c ∈ readTo ⟨read, none, wellFormed⟩ bs, IsPlain c) :
    ∃ cs : List Char, readTo ⟨read, none, wellFormed⟩ bs = cs.reverse ++ read ∧
      cs.flatMap String.utf8EncodeChar = bs := by
  induction bs generalizing read wellFormed with
  | nil => exact ⟨[], rfl, rfl⟩
  | cons b bs ih =>
    have hpush : readTo ⟨read, none, wellFormed⟩ (b :: bs) =
        readTo (begin ⟨read, none, wellFormed⟩ b) bs := rfl
    rw [hpush, begin] at hplain ⊢
    cases hlead : lead b with
    | complete c =>
      obtain ⟨hb, rfl⟩ := of_lead_eq_complete hlead
      rw [hlead] at hplain
      obtain ⟨cs, hread, hbytes⟩ := ih hplain
      refine ⟨Char.ofNat b.toNat :: cs, ?_, ?_⟩
      · rw [hread, List.reverse_cons, List.append_assoc, List.singleton_append]
      · rw [List.flatMap_cons, utf8EncodeChar_ofNat hb, hbytes, List.singleton_append]
    | begun p =>
      rw [hlead] at hplain
      obtain ⟨c, hc, hnot⟩ := exists_not_isPlain (long_of_lead hlead) read wellFormed bs
      exact (hnot (hplain c hc)).elim
    | illFormed =>
      rw [hlead] at hplain
      have hmem : replacement ∈ readTo ⟨replacement :: read, none, false⟩ bs :=
        (read_readTo _ bs).subset List.mem_cons_self
      exact (not_isPlain_replacement (hplain replacement hmem)).elim

end Reader

/-- **A text of ASCII is read from its own bytes only.** -/
theorem decodeLossy_eq_iff {bs : Bytes} {text : String} (hplain : ∀ c ∈ text.toList, IsPlain c) :
    decodeLossy bs = text ↔ bs = encode text := by
  constructor
  · rintro rfl
    have hread : (decodeLossy bs).toList = (Reader.readTo {} bs).reverse := by
      rw [decodeLossy, String.toList_ofList]
      rfl
    rw [hread] at hplain
    obtain ⟨cs, hcs, hbytes⟩ := Reader.exists_readTo_eq fun c hc =>
      hplain c (List.mem_reverse.mpr hc)
    rw [encode, hread, hcs, List.append_nil, List.reverse_reverse, hbytes]
  · rintro rfl
    exact decodeLossy_encode text

end LightPeer.Utf8
