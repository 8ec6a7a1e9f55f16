import LightPeer.Proofs.Wire.Parsing

/-!
# Short and long forms of a count

A number has one form of every length that it fits into, and the shortest of them is the one
that is written.  So bytes that hold counts in any form are never shorter than those that are
written for the same values, and they are the same bytes only if every count is in its shortest
form.

* `Form.eq_of_length_eq` — a form is determined by its length;
* `Form.shortest_iff` — the shortest form is the written one;
* `Rewrites.append`, `Rewrites.flatten` — the comparison of what was read with what is written.
-/

namespace LightPeer.Wire

namespace CompactSize

variable {bs bs' : Bytes} {n : Nat}

/-- The form of a number that has a given length. -/
def ofLength (length n : Nat) : Bytes :=
  match length with
  | 1 => [UInt8.ofNat n]
  | 3 => 0xFD :: Bytes.ofNat .little 2 n
  | 5 => 0xFE :: Bytes.ofNat .little 4 n
  | _ => 0xFF :: Bytes.ofNat .little 8 n

/-- A form is determined by its number and by how long it is. -/
theorem Form.eq_ofLength (h : Form bs n) : bs = ofLength bs.length n := by
  have hdigits {digits : Bytes} {width : Nat} (hwidth : digits.length = width) :
      digits = Bytes.ofNat .little width (Bytes.toNat .little digits) := by
    rw [← hwidth, Bytes.ofNat_toNat]
  cases h with
  | @short first _ =>
    rw [List.length_singleton, ofLength, UInt8.ofNat_toNat]
  | two h =>
    rw [List.length_cons, h, ofLength, ← hdigits h]
  | four h =>
    rw [List.length_cons, h, ofLength, ← hdigits h]
  | eight h =>
    rw [List.length_cons, h, ofLength, ← hdigits h] <;> decide

/-- Two forms of a number are the same if they are equally long. -/
theorem Form.eq_of_length_eq (h : Form bs n) (h' : Form bs' n) (hlength : bs.length = bs'.length) :
    bs = bs' := by
  rw [h.eq_ofLength, h'.eq_ofLength, hlength]

/-- The shortest form of a number has one, three, five or nine bytes. -/
theorem size_ofNat (hn : n < 2 ^ 64) :
    size (UInt64.ofNat n) =
      if n ≤ 0xFC then 1 else if n ≤ 0xFFFF then 3 else if n ≤ 0xFFFFFFFF then 5 else 9 := by
  simp only [size, UInt64.le_iff_toNat_le, UInt64.toNat_ofNat_of_lt' hn, UInt64.reduceToNat]

/-- No form is shorter than the one that is written. -/
theorem Form.length_encode_le (h : Form bs n) :
    (encode (UInt64.ofNat n)).length ≤ bs.length := by
  have hfits {digits : Bytes} {width : Nat} (hwidth : digits.length = width) :
      Bytes.toNat .little digits < 256 ^ width := by
    rw [← hwidth]
    exact Bytes.toNat_lt .little digits
  rw [length_encode, size_ofNat h.lt]
  cases h with
  | @short first hfirst =>
    have hle : first.toNat ≤ 0xFC := UInt8.le_iff_toNat_le.mp hfirst
    exact Nat.le_of_eq (by rw [if_pos hle, List.length_singleton])
  | two h =>
    have hlt := hfits h
    rw [List.length_cons, h]
    grind
  | four h =>
    have hlt := hfits h
    rw [List.length_cons, h]
    grind
  | eight h =>
    rw [List.length_cons, h]
    grind

/-- No form of the number is shorter. -/
def Shortest (bs : Bytes) (n : Nat) : Prop :=
  ∀ other, Form other n → bs.length ≤ other.length

/-- The shortest form of a number is the one that is written. -/
theorem Form.shortest_iff (h : Form bs n) :
    Shortest bs n ↔ encode (UInt64.ofNat n) = bs := by
  have hwritten : Form (encode (UInt64.ofNat n)) n := form_encode_ofNat h.lt
  constructor
  · intro hshort
    exact hwritten.eq_of_length_eq h (Nat.le_antisymm h.length_encode_le (hshort _ hwritten))
  · intro hsame other hother
    rw [← hsame]
    exact hother.length_encode_le

end CompactSize

/-- The bytes `new` are never longer than `old`, and they are the same just if `Same` holds. -/
structure Rewrites (old new : Bytes) (Same : Prop) : Prop where
  length_le : new.length ≤ old.length
  eq_iff : new = old ↔ Same

namespace Rewrites

variable {old old' new new' : Bytes} {Same Same' : Prop}

theorem refl (bs : Bytes) : Rewrites bs bs True :=
  ⟨Nat.le_refl _, iff_of_true rfl trivial⟩

/-- Conditions that say the same may stand for each other. -/
theorem congr (h : Rewrites old new Same) (hiff : Same ↔ Same') : Rewrites old new Same' :=
  ⟨h.length_le, h.eq_iff.trans hiff⟩

/-- Part after part: if the whole is the same then no part has become shorter. -/
theorem append (h : Rewrites old new Same) (h' : Rewrites old' new' Same') :
    Rewrites (old ++ old') (new ++ new') (Same ∧ Same') := by
  have hle := h.length_le
  have hle' := h'.length_le
  refine ⟨?_, ?_⟩
  · rw [List.length_append, List.length_append]
    omega
  · rw [← h.eq_iff, ← h'.eq_iff]
    constructor
    · intro hwhole
      have hlength := congrArg List.length hwhole
      rw [List.length_append, List.length_append] at hlength
      exact List.append_inj hwhole (by omega)
    · rintro ⟨rfl, rfl⟩
      rfl

/-- A count is written in its shortest form, and so it stays as it is only if it was in that
form. -/
theorem count {n : Nat} (h : CompactSize.Form old n) :
    Rewrites old (CompactSize.encode (UInt64.ofNat n)) (CompactSize.Shortest old n) :=
  ⟨h.length_encode_le, h.shortest_iff.symm⟩

/-- Item after item, each in a form of its own. -/
theorem flatten {α β : Type} {old : β → α → Bytes} {new : α → Bytes} {Same : β → α → Prop}
    {forms : List β} {items : List α}
    (h : List.Forall₂ (fun form a => Rewrites (old form a) (new a) (Same form a)) forms items) :
    Rewrites (List.zipWith old forms items).flatten (items.map new).flatten
      (List.Forall₂ Same forms items) := by
  induction h with
  | nil => exact (refl []).congr (iff_of_true trivial .nil)
  | cons hfirst _ ih => exact (hfirst.append ih).congr List.forall₂_cons.symm

end Rewrites

end LightPeer.Wire
