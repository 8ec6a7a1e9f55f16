import Mathlib.Data.List.Induction
import Mathlib.Data.List.TakeWhile
import LightPeer.Digest.Hash256

/-!
# Hashes as people read them

A hash is shown by two digits for each of its bytes, the last byte first.  A text is read as a hash
if it has sixty-four digits of either case and nothing else.  Digits take one byte each, so the
first character that is no digit begins as many bytes behind the start of the text as there are
characters before it, however many bytes it takes itself.

* `digitValue?_of_isDigit`, `digitValue?_of_not_isDigit` — a digit has its value, and no other
  character begins with a byte that looks like one;
* `decodePairs_digits`, `decodePairs_refuses` — digits are read up to the first other character;
* `flatMap_ofByte_injective` — bytes are known by their digits;
* `ofDisplay_digits`, `ofDisplay_display` — what is read is what is shown;
* `exists_ofDisplay_iff`, `ofDisplay_refuses` — which texts are read, and where the others end;
* `display_exact` — these facts about hashes together.
-/

namespace LightPeer

namespace Hex

variable {c : Char} {cs digits rest : List Char} {bs bs' : Bytes}

/-- A digit of base sixteen, of either case. -/
def IsDigit (c : Char) : Prop :=
  ('0' ≤ c ∧ c ≤ '9') ∨ ('a' ≤ c ∧ c ≤ 'f') ∨ ('A' ≤ c ∧ c ≤ 'F')

instance (c : Char) : Decidable (IsDigit c) := inferInstanceAs (Decidable (_ ∨ _))

/-- The digits of both cases as numbers, in which form the readers compare them. -/
theorem isDigit_iff : IsDigit c ↔ (48 ≤ c.toNat ∧ c.toNat ≤ 57) ∨ (97 ≤ c.toNat ∧ c.toNat ≤ 102) ∨
    (65 ≤ c.toNat ∧ c.toNat ≤ 70) :=
  Iff.rfl

/-- The digit of a number is one, and is not changed in lower case. -/
theorem isDigit_digit : ∀ v < 16, IsDigit (digit v) ∧ (digit v).toLower = digit v := by decide

/-- Numbers are known by their digits. -/
theorem digit_injective : ∀ v < 16, ∀ w < 16, digit v = digit w → v = w := by decide

/-- Every digit is read as the value that it is written for, and its lower case is how this value is
written. -/
theorem digitValue?_ascii : ∀ n < 103, IsDigit (Char.ofNat n) → ∃ v < 16,
    digitValue? (UInt8.ofNat n) = some (UInt8.ofNat v) ∧ digit v = (Char.ofNat n).toLower := by
  decide +kernel

/-- **A digit has its value**, by which it is known up to its case, and takes one byte. -/
theorem digitValue?_of_isDigit (hc : IsDigit c) :
    String.utf8EncodeChar c = [UInt8.ofNat c.toNat] ∧ ∃ v < 16,
      digitValue? (UInt8.ofNat c.toNat) = some (UInt8.ofNat v) ∧ digit v = c.toLower := by
  have hrange := isDigit_iff.mp hc
  have hascii : c.toNat ≤ 0x7F := by omega
  have hvalue := digitValue?_ascii c.toNat (by omega)
  rw [Char.ofNat_toNat] at hvalue
  exact ⟨if_pos hascii, hvalue hc⟩

/-- No other byte has a value. -/
theorem digitValue?_eq_none {n : Nat} (hn : n < 256) (hrange : ¬ ((48 ≤ n ∧ n ≤ 57) ∨
    (97 ≤ n ∧ n ≤ 102) ∨ (65 ≤ n ∧ n ≤ 70))) : digitValue? (UInt8.ofNat n) = none := by
  have hbyte : (UInt8.ofNat n).toNat = n := UInt8.toNat_ofNat_of_lt' hn
  simp only [digitValue?, UInt8.le_iff_toNat_le, hbyte, UInt8.reduceToNat]
  rw [if_neg (by omega), if_neg (by omega), if_neg (by omega)]

/-- A character that is no digit does not begin with a byte that looks like one. -/
theorem digitValue?_of_not_isDigit (hc : ¬ IsDigit c) :
    ∃ b more, String.utf8EncodeChar c = b :: more ∧ digitValue? b = none := by
  rw [isDigit_iff] at hc
  rw [String.utf8EncodeChar]
  split
  · next hone => exact ⟨_, _, rfl, digitValue?_eq_none (Nat.lt_of_le_of_lt hone (by decide)) hc⟩
  · split
    · exact ⟨_, _, rfl, digitValue?_eq_none (by omega) (by omega)⟩
    · split
      · exact ⟨_, _, rfl, digitValue?_eq_none (by omega) (by omega)⟩
      · exact ⟨_, _, rfl, digitValue?_eq_none (by omega) (by omega)⟩

/-- The two digits of a byte that is made of two values. -/
theorem ofByte_of_halves {high low : Nat} (hhigh : high < 16) (hlow : low < 16) :
    ofByte (UInt8.ofNat high * 16 + UInt8.ofNat low) = [digit high, digit low] := by
  have hbyte : (UInt8.ofNat high * 16 + UInt8.ofNat low).toNat = high * 16 + low := by
    rw [UInt8.toNat_add, UInt8.toNat_mul, UInt8.toNat_ofNat', UInt8.toNat_ofNat']
    simp only [UInt8.reduceToNat]
    omega
  rw [ofByte, hbyte, show (high * 16 + low) / 16 = high by omega,
    show (high * 16 + low) % 16 = low by omega]

/-- **An even number of digits is read**, as the bytes that are written with them in lower case. -/
theorem decodePairs_digits (index n : Nat) (hlength : digits.length = 2 * n)
    (hdigits : ∀ c ∈ digits, IsDigit c) :
    ∃ bs, decodePairs index (digits.flatMap String.utf8EncodeChar) = .ok bs ∧
      bs.flatMap ofByte = digits.map Char.toLower := by
  induction n generalizing digits index with
  | zero =>
    rw [List.length_eq_zero_iff.mp hlength]
    exact ⟨[], rfl, rfl⟩
  | succ n ih =>
    obtain _ | ⟨high, _ | ⟨low, rest⟩⟩ := digits
    · cases hlength
    · simp only [List.length_cons, List.length_nil] at hlength
      omega
    · rw [List.forall_mem_cons, List.forall_mem_cons] at hdigits
      obtain ⟨hhigh, hlow, hrest⟩ := hdigits
      obtain ⟨hbyte, v, hv, hvalue, hdigit⟩ := digitValue?_of_isDigit hhigh
      obtain ⟨hbyte', w, hw, hvalue', hdigit'⟩ := digitValue?_of_isDigit hlow
      simp only [List.length_cons] at hlength
      obtain ⟨bs, hdecode, hshown⟩ := ih (index + 2) (by omega) hrest
      refine ⟨(UInt8.ofNat v * 16 + UInt8.ofNat w) :: bs, ?_, ?_⟩
      · simp only [List.flatMap_cons, hbyte, hbyte', List.singleton_append, decodePairs, hvalue,
          hvalue', hdecode]
      · rw [List.flatMap_cons, hshown, ofByte_of_halves hv hw, hdigit, hdigit']
        rfl

/-- **The first character that is no digit is refused**, wherever it stands. -/
theorem decodePairs_refuses (index : Nat) (hdigits : ∀ d ∈ digits, IsDigit d) (hc : ¬ IsDigit c)
    (rest : List Char) :
    ∃ b, (String.utf8EncodeChar c).head? = some b ∧
      decodePairs index ((digits ++ c :: rest).flatMap String.utf8EncodeChar) =
        .error (.invalidCharacter b (index + digits.length)) := by
  obtain ⟨b, more, hfirst, hnone⟩ := digitValue?_of_not_isDigit hc
  refine ⟨b, by rw [hfirst]; rfl, ?_⟩
  -- Digits are taken two at a time: the character is met as the first or the second of a pair.
  induction digits using List.twoStepInduction generalizing index with
  | nil =>
    rw [List.nil_append, List.flatMap_cons, hfirst, List.cons_append]
    cases more ++ rest.flatMap String.utf8EncodeChar with
    | nil => rfl
    | cons => simp only [decodePairs, hnone, List.length_nil, Nat.add_zero]
  | singleton d =>
    have hd := hdigits d (List.mem_singleton_self d)
    obtain ⟨hbyte, v, -, hvalue, -⟩ := digitValue?_of_isDigit hd
    simp only [List.cons_append, List.nil_append, List.flatMap_cons, hbyte, hfirst, decodePairs,
      hvalue, hnone, List.length_singleton]
  | cons_cons d d' digits ih =>
    rw [List.forall_mem_cons, List.forall_mem_cons] at hdigits
    obtain ⟨hd, hd', hdigits⟩ := hdigits
    obtain ⟨hbyte, v, -, hvalue, -⟩ := digitValue?_of_isDigit hd
    obtain ⟨hbyte', w, -, hvalue', -⟩ := digitValue?_of_isDigit hd'
    simp only [List.cons_append, List.flatMap_cons, hbyte, hbyte', List.nil_append, decodePairs,
      hvalue, hvalue', ih (index + 2) hdigits, List.length_cons]
    rw [show index + 2 + digits.length = index + (digits.length + 1 + 1) by omega]

/-- **Bytes are known by their digits**, as every byte has two and no two bytes have the same. -/
theorem flatMap_ofByte_injective (h : bs.flatMap ofByte = bs'.flatMap ofByte) : bs = bs' := by
  induction bs generalizing bs' with
  | nil =>
    cases bs' with
    | nil => rfl
    | cons => cases h
  | cons b bs ih =>
    cases bs' with
    | nil => cases h
    | cons b' bs' =>
      simp only [List.flatMap_cons, ofByte, List.cons_append, List.nil_append,
        List.cons.injEq] at h
      obtain ⟨hhigh, hlow, hrest⟩ := h
      have hb := b.toNat_lt
      have hb' := b'.toNat_lt
      have hdiv := digit_injective _ (by omega) _ (by omega) hhigh
      have hmod := digit_injective _ (by omega) _ (by omega) hlow
      rw [ih hrest, show b = b' from UInt8.toNat_inj.mp (by omega)]

/-- The digits of one byte among those of all. -/
theorem take_drop_flatMap_ofByte (i : Nat) (hi : i < bs.length) :
    ((bs.flatMap ofByte).drop (2 * i)).take 2 = ofByte bs[i] := by
  induction i generalizing bs with
  | zero =>
    obtain _ | ⟨b, bs⟩ := bs
    · cases hi
    · rfl
  | succ i ih =>
    obtain _ | ⟨b, bs⟩ := bs
    · cases hi
    · exact ih (Nat.lt_of_succ_lt_succ hi)

/-- A byte is written with two digits. -/
theorem length_flatMap_ofByte (bs : Bytes) : (bs.flatMap ofByte).length = 2 * bs.length := by
  induction bs with
  | nil => rfl
  | cons b bs ih =>
    rw [List.flatMap_cons, List.length_append, ih, List.length_cons]
    simp only [ofByte, List.length_cons, List.length_nil]
    omega

/-- What is written for bytes are digits, all of them in lower case. -/
theorem mem_flatMap_ofByte (h : c ∈ bs.flatMap ofByte) : IsDigit c ∧ c.toLower = c := by
  obtain ⟨b, -, hc⟩ := List.mem_flatMap.mp h
  have hb := b.toNat_lt
  rw [ofByte, List.mem_cons, List.mem_singleton] at hc
  obtain rfl | rfl := hc
  · exact isDigit_digit _ (by omega)
  · exact isDigit_digit _ (by omega)

/-- Digits take one byte each, and so two digits stand for a byte in a text as well. -/
theorem length_flatMap_utf8EncodeChar (hdigits : ∀ c ∈ digits, IsDigit c) :
    (digits.flatMap String.utf8EncodeChar).length = digits.length := by
  induction digits with
  | nil => rfl
  | cons d digits ih =>
    rw [List.forall_mem_cons] at hdigits
    rw [List.flatMap_cons, List.length_append, ih hdigits.2, (digitValue?_of_isDigit hdigits.1).1,
      List.length_singleton, List.length_cons, Nat.add_comm]

/-- Characters that are not all digits have a first one that is none. -/
theorem exists_first (h : ¬ ∀ c ∈ cs, IsDigit c) :
    ∃ digits c rest, cs = digits ++ c :: rest ∧ (∀ d ∈ digits, IsDigit d) ∧ ¬ IsDigit c := by
  have hrest : cs.dropWhile (decide <| IsDigit ·) ≠ [] := by
    intro hnil
    exact h fun c hc => of_decide_eq_true (List.dropWhile_eq_nil_iff.mp hnil c hc)
  obtain ⟨c, rest, hcons⟩ := List.exists_cons_of_ne_nil hrest
  refine ⟨cs.takeWhile (decide <| IsDigit ·), c, rest, ?_, ?_, ?_⟩
  · rw [← hcons, List.takeWhile_append_dropWhile]
  · intro d hd
    have hp := List.mem_takeWhile_imp hd
    exact of_decide_eq_true hp
  · have hhead := List.head_dropWhile_not (decide <| IsDigit ·) hrest
    simp only [hcons, List.head_cons] at hhead
    exact of_decide_eq_false hhead

end Hex

namespace Utf8

/-- The bytes of a text are counted by its size. -/
theorem length_encode (text : String) : (encode text).length = text.utf8ByteSize := by
  rw [String.utf8ByteSize, ← String.utf8Encode_toList, List.utf8Encode, List.size_toByteArray]
  rfl

end Utf8

namespace Hash256

variable {text : String} {h : Hash256}

/-- The lower case of a text is that of its characters. -/
theorem toList_toLower (text : String) : text.toLower.toList = text.toList.map Char.toLower :=
  String.toList_map

/-- **Sixty-four digits are a hash**, which is shown by them in lower case. -/
theorem ofDisplay_digits (hlength : text.length = 64) (hdigits : ∀ c ∈ text.toList, Hex.IsDigit c) :
    ∃ h, ofDisplay text = .ok h ∧ h.display = text.toLower := by
  rw [← String.length_toList] at hlength
  obtain ⟨bs, hdecode, hshown⟩ := Hex.decodePairs_digits 0 32 hlength hdigits
  have hsize : (Utf8.encode text).length = 64 :=
    (Hex.length_flatMap_utf8EncodeChar hdigits).trans hlength
  have hbytes : bs.reverse.length = 32 := by
    have hcount := congrArg List.length hshown
    rw [Hex.length_flatMap_ofByte, List.length_map, hlength] at hcount
    rw [List.length_reverse]
    omega
  refine ⟨⟨bs.reverse, hbytes⟩, ?_, ?_⟩
  · rw [ofDisplay, Hex.decodeField, if_neg (by omega), if_neg (by omega), Utf8.encode, hdecode]
    simp only [ofBytes?, dif_pos hbytes]
  · rw [display, List.reverse_reverse, Hex.encode, hshown, ← String.toList_inj,
      String.toList_ofList, toList_toLower]

/-- **What is shown of a hash is read as that hash.** -/
theorem ofDisplay_display (h : Hash256) : ofDisplay h.display = .ok h := by
  have hchars : h.display.toList = h.bytes.reverse.flatMap Hex.ofByte := String.toList_ofList
  have hlength : h.display.length = 64 := by
    rw [← String.length_toList, hchars, Hex.length_flatMap_ofByte, List.length_reverse,
      h.length_bytes]
  have hdigits (c : Char) (hc : c ∈ h.display.toList) : Hex.IsDigit c ∧ c.toLower = c :=
    Hex.mem_flatMap_ofByte (hchars ▸ hc)
  obtain ⟨h', hread, hshown⟩ := ofDisplay_digits hlength fun c hc => (hdigits c hc).1
  have hlower : h.display.toLower.toList = h.display.toList := by
    rw [toList_toLower]
    exact (List.map_congr_left fun c hc => (hdigits c hc).2).trans (List.map_id _)
  -- Both hashes are shown by the same digits.
  have hsame : h'.bytes.reverse.flatMap Hex.ofByte = h.bytes.reverse.flatMap Hex.ofByte := by
    rw [← hchars, ← hlower, ← hshown]
    exact String.toList_ofList.symm
  have hbytes := List.reverse_inj.mp (Hex.flatMap_ofByte_injective hsame)
  rw [hread]
  cases h
  cases h'
  cases hbytes
  rfl

/-- **Sixty-four bytes that are not all digits** are refused for the first other character. -/
theorem ofDisplay_refuses (hsize : text.utf8ByteSize = 64)
    (h : ¬ ∀ c ∈ text.toList, Hex.IsDigit c) :
    ∃ digits c rest b, text.toList = digits ++ c :: rest ∧ (∀ d ∈ digits, Hex.IsDigit d) ∧
      ¬ Hex.IsDigit c ∧ (String.utf8EncodeChar c).head? = some b ∧
      (Utf8.encode text)[digits.length]? = some b ∧
      ofDisplay text = .error (.invalidCharacter b digits.length) := by
  obtain ⟨digits, c, rest, htext, hdigits, hc⟩ := Hex.exists_first h
  obtain ⟨b, hfirst, hrefused⟩ := Hex.decodePairs_refuses 0 hdigits hc rest
  rw [← Utf8.length_encode] at hsize
  refine ⟨digits, c, rest, b, htext, hdigits, hc, hfirst, ?_, ?_⟩
  · rw [Utf8.encode, htext, List.flatMap_append, List.flatMap_cons,
      ← Hex.length_flatMap_utf8EncodeChar hdigits, List.getElem?_append_right (Nat.le_refl _),
      Nat.sub_self, ← List.head?_eq_getElem?, List.head?_append, hfirst]
    rfl
  · rw [ofDisplay, Hex.decodeField, if_neg (by omega), if_neg (by omega), Utf8.encode, htext,
      hrefused, Nat.zero_add]

/-- A text of another size is refused for it, before any of its characters is looked at. -/
theorem ofDisplay_size :
    (text.utf8ByteSize % 2 = 1 → ofDisplay text = .error .oddLength) ∧
      (text.utf8ByteSize % 2 = 0 → text.utf8ByteSize ≠ 64 →
        ofDisplay text = .error .invalidStringLength) := by
  rw [← Utf8.length_encode]
  refine ⟨fun hodd => ?_, fun heven hsize => ?_⟩
  · rw [ofDisplay, Hex.decodeField, if_pos (by omega)]
  · rw [ofDisplay, Hex.decodeField, if_neg (by omega), if_pos (by omega)]

/-- A text of digits has as many bytes as characters, so the length that is asked for is that of the
text. -/
theorem utf8ByteSize_of_digits (hdigits : ∀ c ∈ text.toList, Hex.IsDigit c) :
    text.utf8ByteSize = text.length := by
  rw [← Utf8.length_encode, ← String.length_toList]
  exact Hex.length_flatMap_utf8EncodeChar hdigits

/-- **The texts that are read** are those of sixty-four digits. -/
theorem exists_ofDisplay_iff : (∃ h, ofDisplay text = .ok h) ↔
    text.length = 64 ∧ ∀ c ∈ text.toList, Hex.IsDigit c := by
  refine ⟨fun ⟨h, hread⟩ => ?_, fun ⟨hlength, hdigits⟩ => ?_⟩
  · have hsize : text.utf8ByteSize = 64 := by
      rcases Nat.mod_two_eq_zero_or_one text.utf8ByteSize with heven | hodd
      · by_contra hne
        cases hread.symm.trans (ofDisplay_size.2 heven hne)
      · cases hread.symm.trans (ofDisplay_size.1 hodd)
    have hdigits : ∀ c ∈ text.toList, Hex.IsDigit c := by
      by_contra hnot
      obtain ⟨_, _, _, _, _, _, _, _, _, hrefused⟩ := ofDisplay_refuses hsize hnot
      cases hread.symm.trans hrefused
    exact ⟨(utf8ByteSize_of_digits hdigits).symm.trans hsize, hdigits⟩
  · obtain ⟨h, hread, -⟩ := ofDisplay_digits hlength hdigits
    exact ⟨h, hread⟩

/-- A text that is read is written again in lower case. -/
theorem display_of_ofDisplay (hread : ofDisplay text = .ok h) : h.display = text.toLower := by
  obtain ⟨hlength, hdigits⟩ := exists_ofDisplay_iff.mp ⟨h, hread⟩
  obtain ⟨h', hread', hshown⟩ := ofDisplay_digits hlength hdigits
  cases hread.symm.trans hread'
  exact hshown

/-- The digits of a byte stand as far from the end of the text as the byte from the start of the
hash. -/
theorem take_drop_display (h : Hash256) (i : Nat) (hi : i < h.bytes.length) :
    (h.display.toList.drop (2 * (31 - i))).take 2 = Hex.ofByte h.bytes[i] := by
  have hlength := h.length_bytes
  have hi' : 31 - i < h.bytes.reverse.length := by
    rw [List.length_reverse]
    omega
  rw [display, Hex.encode, String.toList_ofList, Hex.take_drop_flatMap_ofByte _ hi',
    List.getElem_reverse]
  simp only [hlength, show 32 - 1 - (31 - i) = i by omega]

/-- **Hashes and their texts belong together.**  What is shown of a hash has the digits of its
bytes, the last byte first, and is read as that hash; the texts that are read are those of
sixty-four digits, and each is shown again in lower case.  Any other text is refused, for an odd
number of bytes, then for another number than sixty-four, then for the first character that is no
digit. -/
theorem display_exact :
    (∀ h : Hash256, ofDisplay h.display = .ok h ∧ h.reversed.reversed = h ∧
      ∀ i (hi : i < h.bytes.length), (h.display.toList.drop (2 * (31 - i))).take 2 =
        Hex.ofByte h.bytes[i]) ∧
    (∀ text, (∃ h, ofDisplay text = .ok h) ↔
      text.length = 64 ∧ ∀ c ∈ text.toList, Hex.IsDigit c) ∧
    (∀ text h, ofDisplay text = .ok h → h.display = text.toLower) ∧
    ∀ text, ¬ (text.length = 64 ∧ ∀ c ∈ text.toList, Hex.IsDigit c) →
      (text.utf8ByteSize % 2 = 1 → ofDisplay text = .error .oddLength) ∧
      (text.utf8ByteSize % 2 = 0 → text.utf8ByteSize ≠ 64 →
        ofDisplay text = .error .invalidStringLength) ∧
      (text.utf8ByteSize = 64 → ∃ digits c rest b, text.toList = digits ++ c :: rest ∧
        (∀ d ∈ digits, Hex.IsDigit d) ∧ ¬ Hex.IsDigit c ∧
        (String.utf8EncodeChar c).head? = some b ∧
        (Utf8.encode text)[digits.length]? = some b ∧
        ofDisplay text = .error (.invalidCharacter b digits.length)) := by
  refine ⟨fun h => ⟨ofDisplay_display h, reversed_reversed h, take_drop_display h⟩,
    fun text => exists_ofDisplay_iff, fun text h => display_of_ofDisplay, fun text hnot =>
      ⟨ofDisplay_size.1, ofDisplay_size.2, fun hsize => ofDisplay_refuses hsize ?_⟩⟩
  intro hdigits
  exact hnot ⟨(utf8ByteSize_of_digits hdigits).symm.trans hsize, hdigits⟩

/-- A hash may be given in upper case and is shown in lower case.  Two bytes that are one character
are counted as two, and stand at the number of the digits before them. -/
theorem display_exact_texts :
    (∃ h, ofDisplay "000000000019D6689C085AE165831E934FF763AE46A2A6C172B3F1B60A8CE26F" = .ok h ∧
      h.display = "000000000019d6689c085ae165831e934ff763ae46a2a6c172b3f1b60a8ce26f" ∧
      ofDisplay h.display = .ok h) ∧
    ofDisplay "5é" = .error .oddLength ∧ ofDisplay "42é" = .error .invalidStringLength ∧
    ∃ digits c rest,
      "00000é000000000000000000000000000000000000000000000000000000000".toList =
        digits ++ c :: rest ∧ digits.length = 5 ∧ (String.utf8EncodeChar c).head? = some 0xC3 ∧
      ofDisplay "00000é000000000000000000000000000000000000000000000000000000000" =
        .error (.invalidCharacter 0xC3 5) := by
  obtain ⟨hshown, hread, hlower, hrefused⟩ := display_exact
  have hfew {text : String} (hlength : text.length ≠ 64) :
      ¬ (text.length = 64 ∧ ∀ c ∈ text.toList, Hex.IsDigit c) := fun h => hlength h.1
  refine ⟨?_, (hrefused _ (hfew (by decide +kernel))).1 (by decide +kernel),
    (hrefused _ (hfew (by decide +kernel))).2.1 (by decide +kernel) (by decide +kernel), ?_⟩
  · have hdigits : "000000000019D6689C085AE165831E934FF763AE46A2A6C172B3F1B60A8CE26F".toList.all
        (decide <| Hex.IsDigit ·) = true := by decide +kernel
    obtain ⟨h, hok⟩ := (hread _).mpr ⟨by decide +kernel, fun c hc =>
      of_decide_eq_true (List.all_eq_true.mp hdigits c hc)⟩
    exact ⟨h, hok, (hlower _ h hok).trans (by decide +kernel), (hshown h).1⟩
  · obtain ⟨digits, c, rest, b, htext, -, -, hfirst, -, herror⟩ :=
      (hrefused "00000é000000000000000000000000000000000000000000000000000000000"
        (hfew (by decide +kernel))).2.2 (by decide +kernel)
    have hsame : ofDisplay "00000é000000000000000000000000000000000000000000000000000000000" =
        .error (.invalidCharacter 0xC3 5) := by decide +kernel
    have hfound := herror.symm.trans hsame
    simp only [Except.error.injEq, Hex.Error.invalidCharacter.injEq] at hfound
    exact ⟨digits, c, rest, htext, hfound.2, hfirst.trans (congrArg some hfound.1), hsame⟩

end Hash256

end LightPeer
