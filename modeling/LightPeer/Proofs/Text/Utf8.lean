import LightPeer.Text.Utf8

/-!
# A text is read from its bytes

A character is written in one to four bytes.  The first of them tells how many there are and
holds the highest bits, and every other one holds six more.  The reader narrows the range of
the second byte where the full one would admit a form that is too long, a surrogate, or a number
that is too large; the bytes of a character are never one of those.

* `lead_two`, `lead_three`, `lead_four` — what the first byte of a longer form begins;
* `foldl_push_utf8EncodeChar` — the bytes of a character are read as that character;
* `decodeLossy_encode` — so the bytes of a text are read as that text.
-/

namespace LightPeer.Utf8

section
variable {b : UInt8}

/-- A byte below 128 is a character by itself. -/
theorem lead_one (hb : b.toNat ≤ 0x7F) : lead b = .complete (Char.ofNat b.toNat) :=
  if_pos (UInt8.le_iff_toNat_le.mpr hb)

/-- A byte of this range begins a character of two bytes, and holds the high bits of its number. -/
theorem lead_two (hlow : 0xC2 ≤ b.toNat) (hhigh : b.toNat ≤ 0xDF) :
    lead b = .begun ⟨b.toNat % 32, 1, 0x80, 0xBF⟩ := by
  simp only [lead, UInt8.le_iff_toNat_le, UInt8.reduceToNat]
  rw [if_neg (by omega), if_pos ⟨hlow, hhigh⟩]

/-- The forms of three bytes begin at `0x0800` and leave out the surrogates. -/
theorem lead_three (hlow : 0xE0 ≤ b.toNat) (hhigh : b.toNat ≤ 0xEF) :
    lead b = .begun ⟨b.toNat % 16, 2, if b.toNat = 0xE0 then 0xA0 else 0x80,
      if b.toNat = 0xED then 0x9F else 0xBF⟩ := by
  simp only [lead, UInt8.le_iff_toNat_le, ← UInt8.toNat_inj, UInt8.reduceToNat]
  rw [if_neg (by omega), if_neg (by omega)]
  by_cases hfirst : b.toNat = 0xE0
  · simp only [hfirst, if_true, Nat.reduceMod, Nat.reduceEqDiff, if_false]
  · by_cases hsurrogates : b.toNat = 0xED
    · simp only [hsurrogates, if_true, Nat.reduceMod, Nat.reduceEqDiff, if_false]
    · rw [if_neg hfirst, if_neg hsurrogates, if_pos (by omega), if_neg hfirst, if_neg hsurrogates]

/-- The forms of four bytes begin at `0x10000` and end at `0x10FFFF`. -/
theorem lead_four (hlow : 0xF0 ≤ b.toNat) (hhigh : b.toNat ≤ 0xF4) :
    lead b = .begun ⟨b.toNat % 8, 3, if b.toNat = 0xF0 then 0x90 else 0x80,
      if b.toNat = 0xF4 then 0x8F else 0xBF⟩ := by
  simp only [lead, UInt8.le_iff_toNat_le, ← UInt8.toNat_inj, UInt8.reduceToNat]
  rw [if_neg (by omega), if_neg (by omega), if_neg (by omega), if_neg (by omega),
    if_neg (by omega)]
  by_cases hfirst : b.toNat = 0xF0
  · simp only [hfirst, if_true, Nat.reduceMod, Nat.reduceEqDiff, if_false]
  · by_cases hlast : b.toNat = 0xF4
    · rw [if_neg hfirst, if_neg (by omega), if_pos hlast, if_neg hfirst, if_pos hlast, hlast]
    · rw [if_neg hfirst, if_pos (by omega), if_neg hfirst, if_neg hlast]

end

section
variable {read : List Char} {wellFormed : Bool} {bits n v : Nat} {low high : UInt8}

/-- The bytes that follow hold six bits each, the first of them the highest. -/
theorem toNat_following (n : Nat) : (UInt8.ofNat (n % 64 + 128)).toNat = n % 64 + 128 := by
  refine UInt8.toNat_ofNat_of_lt' (show _ < 256 from ?_)
  omega

/-- A byte that begins a character is kept until those that follow have come. -/
theorem push_begun {b : UInt8} {p : Partial} (hlead : lead b = .begun p) :
    Reader.push ⟨read, none, wellFormed⟩ b = ⟨read, some p, wellFormed⟩ := by
  rw [Reader.push, Reader.begin, hlead]

/-- A byte that follows is in its range exactly where its six bits are. -/
theorem following_mem (hlow : low.toNat ≤ n % 64 + 128) (hhigh : n % 64 + 128 ≤ high.toNat) :
    low ≤ UInt8.ofNat (n % 64 + 128) ∧ UInt8.ofNat (n % 64 + 128) ≤ high := by
  rw [UInt8.le_iff_toNat_le, UInt8.le_iff_toNat_le, toNat_following]
  exact ⟨hlow, hhigh⟩

/-- The last byte of a character, which gives its lowest six bits. -/
theorem push_last (hlow : low.toNat ≤ n % 64 + 128) (hhigh : n % 64 + 128 ≤ high.toNat) :
    Reader.push ⟨read, some ⟨bits, 1, low, high⟩, wellFormed⟩ (UInt8.ofNat (n % 64 + 128)) =
      ⟨Char.ofNat (bits * 64 + n % 64) :: read, none, wellFormed⟩ := by
  have hsix : (n % 64 + 128) % 64 = n % 64 := by omega
  simp only [Reader.push, if_pos (following_mem hlow hhigh), toNat_following, hsix, if_true]

/-- A byte between the first and the last, behind which the range is the full one. -/
theorem push_next {owed : Nat} (hlow : low.toNat ≤ n % 64 + 128)
    (hhigh : n % 64 + 128 ≤ high.toNat) :
    Reader.push ⟨read, some ⟨bits, owed + 2, low, high⟩, wellFormed⟩ (UInt8.ofNat (n % 64 + 128)) =
      ⟨read, some ⟨bits * 64 + n % 64, owed + 1, 0x80, 0xBF⟩, wellFormed⟩ := by
  have hsix : (n % 64 + 128) % 64 = n % 64 := by omega
  have howed : owed + 2 ≠ 1 := by omega
  simp only [Reader.push, if_pos (following_mem hlow hhigh), toNat_following, hsix, if_neg howed,
    show owed + 2 - 1 = owed + 1 from rfl]

/-- A character of one byte is read. -/
theorem foldl_push_one (hv : v ≤ 0x7F) :
    [UInt8.ofNat v].foldl Reader.push ⟨read, none, wellFormed⟩ =
      ⟨Char.ofNat v :: read, none, wellFormed⟩ := by
  have hbyte : (UInt8.ofNat v).toNat = v := UInt8.toNat_ofNat_of_lt' (show _ < 256 by omega)
  have hlead : lead (UInt8.ofNat v) = .complete (Char.ofNat (UInt8.ofNat v).toNat) :=
    lead_one (by omega)
  rw [hbyte] at hlead
  rw [List.foldl_cons, List.foldl_nil, Reader.push, Reader.begin, hlead]

/-- So is one of two bytes, -/
theorem foldl_push_two (hlow : 0x80 ≤ v) (hhigh : v ≤ 0x7FF) :
    [UInt8.ofNat (v / 64 % 32 + 192), UInt8.ofNat (v % 64 + 128)].foldl Reader.push
        ⟨read, none, wellFormed⟩ =
      ⟨Char.ofNat v :: read, none, wellFormed⟩ := by
  have hbyte : (UInt8.ofNat (v / 64 % 32 + 192)).toNat = v / 64 % 32 + 192 :=
    UInt8.toNat_ofNat_of_lt' (show _ < 256 by omega)
  have hbits : (v / 64 % 32 + 192) % 32 * 64 + v % 64 = v := by omega
  rw [List.foldl_cons, push_begun (lead_two (by omega) (by omega)), hbyte, List.foldl_cons,
    push_last (by simp) (by simp; omega), hbits, List.foldl_nil]

/-- of three, where no surrogate is meant, -/
theorem foldl_push_three (hlow : 0x800 ≤ v) (hhigh : v ≤ 0xFFFF)
    (hvalid : v < 0xD800 ∨ 0xDFFF < v) :
    [UInt8.ofNat (v / 4096 % 16 + 224), UInt8.ofNat (v / 64 % 64 + 128),
        UInt8.ofNat (v % 64 + 128)].foldl Reader.push ⟨read, none, wellFormed⟩ =
      ⟨Char.ofNat v :: read, none, wellFormed⟩ := by
  have hbyte : (UInt8.ofNat (v / 4096 % 16 + 224)).toNat = v / 4096 % 16 + 224 :=
    UInt8.toNat_ofNat_of_lt' (show _ < 256 by omega)
  have hbits : ((v / 4096 % 16 + 224) % 16 * 64 + v / 64 % 64) * 64 + v % 64 = v := by omega
  -- The form is not too long, and it is no surrogate.
  have hnarrow : (if v / 4096 % 16 + 224 = 0xE0 then 0xA0 else 0x80 : UInt8).toNat ≤
      v / 64 % 64 + 128 := by
    split
    · show 0xA0 ≤ _
      omega
    · show 0x80 ≤ _
      omega
  have hnarrow' : v / 64 % 64 + 128 ≤
      (if v / 4096 % 16 + 224 = 0xED then 0x9F else 0xBF : UInt8).toNat := by
    split
    · show _ ≤ 0x9F
      omega
    · show _ ≤ 0xBF
      omega
  rw [List.foldl_cons, push_begun (lead_three (by omega) (by omega)), hbyte, List.foldl_cons,
    push_next hnarrow hnarrow', List.foldl_cons, push_last (by simp) (by simp; omega), hbits,
    List.foldl_nil]

/-- and of four. -/
theorem foldl_push_four (hlow : 0x10000 ≤ v) (hhigh : v < 0x110000) :
    [UInt8.ofNat (v / 262144 % 8 + 240), UInt8.ofNat (v / 4096 % 64 + 128),
        UInt8.ofNat (v / 64 % 64 + 128), UInt8.ofNat (v % 64 + 128)].foldl Reader.push
        ⟨read, none, wellFormed⟩ =
      ⟨Char.ofNat v :: read, none, wellFormed⟩ := by
  have hbyte : (UInt8.ofNat (v / 262144 % 8 + 240)).toNat = v / 262144 % 8 + 240 :=
    UInt8.toNat_ofNat_of_lt' (show _ < 256 by omega)
  have hbits : (((v / 262144 % 8 + 240) % 8 * 64 + v / 4096 % 64) * 64 + v / 64 % 64) * 64 +
      v % 64 = v := by omega
  -- The form is not too long, and the number is not too large.
  have hnarrow : (if v / 262144 % 8 + 240 = 0xF0 then 0x90 else 0x80 : UInt8).toNat ≤
      v / 4096 % 64 + 128 := by
    split
    · show 0x90 ≤ _
      omega
    · show 0x80 ≤ _
      omega
  have hnarrow' : v / 4096 % 64 + 128 ≤
      (if v / 262144 % 8 + 240 = 0xF4 then 0x8F else 0xBF : UInt8).toNat := by
    split
    · show _ ≤ 0x8F
      omega
    · show _ ≤ 0xBF
      omega
  rw [List.foldl_cons, push_begun (lead_four (by omega) (by omega)), hbyte, List.foldl_cons,
    push_next hnarrow hnarrow', List.foldl_cons, push_next (by simp) (by simp; omega),
    List.foldl_cons, push_last (by simp) (by simp; omega), hbits, List.foldl_nil]

end

/-- **The bytes of a character are read as that character**, whatever was read before. -/
theorem foldl_push_utf8EncodeChar (read : List Char) (wellFormed : Bool) (c : Char) :
    (String.utf8EncodeChar c).foldl Reader.push ⟨read, none, wellFormed⟩ =
      ⟨c :: read, none, wellFormed⟩ := by
  have hvalid : c.val.toNat < 0xD800 ∨ 0xDFFF < c.val.toNat ∧ c.val.toNat < 0x110000 := c.valid
  have hback : Char.ofNat c.val.toNat = c := Char.ofNat_toNat c
  rw [String.utf8EncodeChar]
  generalize c.val.toNat = v at hvalid hback ⊢
  subst hback
  split
  · next hone => exact foldl_push_one hone
  · split
    · next htwo => exact foldl_push_two (by omega) htwo
    · split
      · next hthree => exact foldl_push_three (by omega) hthree (by omega)
      · exact foldl_push_four (by omega) (by omega)

/-- **The characters of a text are read from their bytes**, one behind the other.  By induction on
the text. -/
theorem foldl_push_flatMap (read cs : List Char) (wellFormed : Bool) :
    (cs.flatMap String.utf8EncodeChar).foldl Reader.push ⟨read, none, wellFormed⟩ =
      ⟨cs.reverse ++ read, none, wellFormed⟩ := by
  induction cs generalizing read with
  | nil => rfl
  | cons c cs ih =>
    rw [List.flatMap_cons, List.foldl_append, foldl_push_utf8EncodeChar, ih, List.reverse_cons,
      List.append_assoc, List.singleton_append]

/-- **A text is read from its bytes**, and every part of them is well formed. -/
theorem run_encode (text : String) : run (encode text) = ⟨text.toList.reverse, none, true⟩ := by
  rw [run, encode, foldl_push_flatMap, List.append_nil]
  rfl

/-- So nothing of a text is lost when it is written and read. -/
theorem decodeLossy_encode (text : String) : decodeLossy (encode text) = text := by
  rw [decodeLossy, run_encode, List.reverse_reverse, String.ofList_toList]

end LightPeer.Utf8
