import LightPeer.Proofs.Wire.Parsing

/-!
# What has been read

Whatever a decoder answers, it has gone over some of the bytes ahead of it and stands behind
them.  `Reads` says so, and says of a value which bytes it was read from.  Decoders that are put
together read bytes that are put together.

No decoder addresses a range that does not exist unless it was started beyond the end of the
data: a missing byte is found missing before it is looked at.

* `Reads.bind` — one decoder after another;
* `reads_exactly`, `reads_unsigned` — a field is read from the bytes that it is written as;
* `reads_compactSize` — a count is read from one of its forms;
* `reads_varBytes`, `reads_vector` — byte strings and lists, from slices behind their number.
-/

namespace LightPeer.Wire

/-- From `input` to `next` the bytes `bs` are gone over. -/
structure Input.Passes (input : Input) (bs : Bytes) (next : Input) : Prop where
  ahead : input.ahead = bs ++ next.ahead
  position : next.position = input.position + bs.length

theorem Input.Passes.refl (input : Input) : input.Passes [] input := ⟨rfl, rfl⟩

/-- Bytes that are gone over one behind the other are gone over. -/
theorem Input.Passes.append {input middle next : Input} {left right : Bytes}
    (h : input.Passes left middle) (h' : middle.Passes right next) :
    input.Passes (left ++ right) next := by
  refine ⟨?_, ?_⟩
  · rw [h.ahead, h'.ahead, List.append_assoc]
  · rw [h'.position, h.position, List.length_append, Nat.add_assoc]

/-- What becomes of reading at `input`: some bytes are gone over, and a value is one that `R`
allows for them.  A range that does not exist is addressed beyond the end only. -/
inductive Outcome.Follows {α : Type} (pastEnd : Bool) (R : Bytes → α → Prop) (input : Input) :
    Outcome α → Prop
  | ok {bs : Bytes} {a : α} {next : Input} (hpass : input.Passes bs next) (ha : R bs a) :
      Follows pastEnd R input (.ok a next)
  | error {bs : Bytes} {cause : Error} {next : Input} (hpass : input.Passes bs next)
      (hcause : cause = .outOfBounds → pastEnd = true) :
      Follows pastEnd R input (.error cause next)

/-- In this byte order, wherever it is started, `d` stops behind bytes that it has gone over, and
`R` holds of them and the value if there is one. -/
def Decoder.Reads {α : Type} (order : ByteOrder) (d : Decoder α) (R : Bytes → α → Prop) : Prop :=
  ∀ pastEnd input, (d ⟨order, pastEnd⟩ input).Follows pastEnd R input

namespace Decoder

variable {α β : Type} {order : ByteOrder} {d : Decoder α} {R R' : Bytes → α → Prop}

/-- What is allowed for the bytes may be loosened. -/
theorem Reads.mono (h : Reads order d R) (himp : ∀ bs a, R bs a → R' bs a) :
    Reads order d R' := by
  intro pastEnd input
  have hd := h pastEnd input
  generalize d ⟨order, pastEnd⟩ input = outcome at hd ⊢
  cases hd with
  | ok hpass ha => exact .ok hpass (himp _ _ ha)
  | error hpass hcause => exact .error hpass hcause

theorem reads_pure (order : ByteOrder) (a : α) :
    Reads order (pure a) fun bs b => bs = [] ∧ b = a :=
  fun _ input => .ok (.refl input) ⟨rfl, rfl⟩

/-- One decoder after another goes over one part after another. -/
theorem Reads.bind {f : α → Decoder β} {S : α → Bytes → β → Prop} (h : Reads order d R)
    (h' : ∀ a, Reads order (f a) (S a)) :
    Reads order (d >>= f) fun bs b =>
      ∃ a left right, bs = left ++ right ∧ R left a ∧ S a right b := by
  intro pastEnd input
  have hfirst := h pastEnd input
  show (andThen d f ⟨order, pastEnd⟩ input).Follows pastEnd _ input
  rw [andThen]
  generalize d ⟨order, pastEnd⟩ input = outcome at hfirst ⊢
  cases hfirst with
  | error hpass hcause => exact .error hpass hcause
  | @ok left a middle hpass ha =>
    have hsecond := h' a pastEnd middle
    dsimp only
    generalize f a ⟨order, pastEnd⟩ middle = outcome at hsecond ⊢
    cases hsecond with
    | ok hpass' hb => exact .ok (hpass.append hpass') ⟨a, left, _, rfl, ha, hb⟩
    | error hpass' hcause => exact .error (hpass.append hpass') hcause

/-- What is made of a value is made of one that the bytes allow. -/
theorem Reads.map (h : Reads order d R) (g : α → β) :
    Reads order (d >>= fun a => pure (g a)) fun bs b => ∃ a, R bs a ∧ b = g a :=
  (h.bind fun a => reads_pure order (g a)).mono fun bs b => by
    rintro ⟨a, left, _, rfl, ha, rfl, rfl⟩
    rw [List.append_nil]
    exact ⟨a, ha, rfl⟩

/-- A reading that sets its own order reads what it reads in that order. -/
theorem Reads.withOrder {order' : ByteOrder} (h : Reads order d R) :
    Reads order' (Decoder.withOrder order d) R :=
  h

/-- The bytes that a decoder gives beside a value are those that it has gone over. -/
theorem Reads.withConsumed (h : Reads order d R) :
    Reads order (Decoder.withConsumed d) fun bs a => R bs a.1 ∧ a.2 = bs := by
  intro pastEnd input
  have hd := h pastEnd input
  rw [Decoder.withConsumed]
  generalize d ⟨order, pastEnd⟩ input = outcome at hd ⊢
  cases hd with
  | error hpass hcause => exact .error hpass hcause
  | @ok bs a next hpass ha =>
    have hconsumed : input.ahead.take (next.position - input.position) = bs := by
      rw [hpass.position, hpass.ahead, Nat.add_sub_cancel_left, List.take_left]
    exact .ok hpass ⟨ha, hconsumed⟩

/-- What a value was read from stands at the front of the bytes. -/
theorem Reads.exists_of_decode (h : Reads .little d R) {bs : Bytes} {a : α}
    (hdecode : d.decode bs = .ok a) : ∃ read rest, bs = read ++ rest ∧ R read a := by
  have hd := h false ⟨0, bs⟩
  have hrun : (d {} ⟨0, bs⟩).toExcept = .ok a := hdecode
  generalize d _ _ = outcome at hd hrun
  cases hd with
  | error hpass hcause => cases hrun
  | @ok read _ next hpass ha =>
    cases hrun
    exact ⟨read, next.ahead, hpass.ahead, ha⟩

/-- What was read was made from what another reader has read. -/
theorem exists_of_decode_map {g : α → β} {bs : Bytes} {b : β}
    (h : (d >>= fun a => pure (g a)).decode bs = .ok b) :
    ∃ a, d.decode bs = .ok a ∧ b = g a := by
  have hrun : (Decoder.andThen d (fun a => Decoder.succeed (g a)) {} ⟨0, bs⟩).toExcept = .ok b := h
  rw [Decoder.andThen] at hrun
  show ∃ a, (d {} ⟨0, bs⟩).toExcept = .ok a ∧ b = g a
  generalize d {} ⟨0, bs⟩ = outcome at hrun ⊢
  cases outcome with
  | error cause next => cases hrun
  | ok a next =>
    cases hrun
    exact ⟨a, rfl, rfl⟩

/-- If there are so many bytes, it is these that are read. -/
theorem reads_exactly (order : ByteOrder) (n : Nat) :
    Reads order (exactly n) fun bs a => bs = a.val := by
  intro pastEnd input
  rw [exactly]
  split
  · next hsize =>
    have hsize := Bytes.hasAtLeast_iff.mp hsize
    split
    · next hempty =>
      refine .error (.refl input) fun _ => ?_
      rw [Bool.and_eq_true] at hempty
      exact hempty.2
    · refine .ok ⟨(List.take_append_drop n input.ahead).symm, ?_⟩ rfl
      rw [List.length_take_of_le hsize]
  · refine .error (.refl input) ?_
    rintro ⟨⟩

theorem reads_take (order : ByteOrder) (n : Nat) :
    Reads order (take n) fun bs a => bs = a ∧ a.length = n :=
  ((reads_exactly order n).map Subtype.val).mono fun bs a => by
    rintro ⟨value, rfl, rfl⟩
    exact ⟨rfl, value.property⟩

/-- A number is read from its own bytes, and it is within its width. -/
theorem reads_unsigned (order : ByteOrder) (width : Nat) :
    Reads order (unsigned width) fun bs n => bs = Bytes.ofNat order width n ∧ n < 256 ^ width := by
  intro pastEnd input
  have htake := reads_take order width pastEnd input
  rw [unsigned]
  generalize take width ⟨order, pastEnd⟩ input = outcome at htake ⊢
  cases htake with
  | error hpass hcause => exact .error hpass hcause
  | @ok bs a next hpass ha =>
    obtain ⟨rfl, rfl⟩ := ha
    exact .ok hpass ⟨(Bytes.ofNat_toNat order bs).symm, Bytes.toNat_lt order bs⟩

theorem reads_uint8 (order : ByteOrder) : Reads order uint8 fun bs b => bs = [b] :=
  ((reads_unsigned order 1).map UInt8.ofNat).mono fun bs b => by
    rintro ⟨n, ⟨rfl, -⟩, rfl⟩
    cases order <;> rfl

theorem reads_uint16 (order : ByteOrder) :
    Reads order uint16 fun bs n => bs = Bytes.ofNat order 2 n.toNat :=
  ((reads_unsigned order 2).map UInt16.ofNat).mono fun bs n => by
    rintro ⟨n, ⟨rfl, hn⟩, rfl⟩
    rw [UInt16.toNat_ofNat_of_lt' hn]

/-- A number of 32 bits is read from the bytes that it is written as. -/
theorem reads_uint32 (order : ByteOrder) :
    Reads order uint32 fun bs n => bs = Bytes.ofNat order 4 n.toNat :=
  ((reads_unsigned order 4).map UInt32.ofNat).mono fun bs n => by
    rintro ⟨n, ⟨rfl, hn⟩, rfl⟩
    rw [UInt32.toNat_ofNat_of_lt' hn]

theorem reads_uint64 (order : ByteOrder) :
    Reads order uint64 fun bs n => bs = Bytes.ofNat order 8 n.toNat :=
  ((reads_unsigned order 8).map UInt64.ofNat).mono fun bs n => by
    rintro ⟨n, ⟨rfl, hn⟩, rfl⟩
    rw [UInt64.toNat_ofNat_of_lt' hn]

/-- So is a number with a sign. -/
theorem reads_int32 (order : ByteOrder) : Reads order int32 fun bs n => bs = int32Bytes order n :=
  ((reads_uint32 order).map UInt32.toInt32).mono fun bs n => by
    rintro ⟨n, rfl, rfl⟩
    rw [int32Bytes, UInt32.toUInt32_toInt32]

theorem reads_int64 (order : ByteOrder) : Reads order int64 fun bs n => bs = int64Bytes order n :=
  ((reads_uint64 order).map UInt64.toInt64).mono fun bs n => by
    rintro ⟨n, rfl, rfl⟩
    rw [int64Bytes, UInt64.toUInt64_toInt64]

/-- A hash is read from its bytes, and from no others. -/
theorem reads_hash (order : ByteOrder) : Reads order hashDecoder fun bs h => bs = h.bytes :=
  ((reads_exactly order 32).map fun bs => Hash256.mk bs.val bs.property).mono fun bs h => by
    rintro ⟨value, rfl, rfl⟩
    rfl

/-- A count is read from one of its forms. -/
theorem reads_compactSize (order : ByteOrder) :
    Reads order CompactSize.decoder fun bs n => CompactSize.Form bs n.toNat := by
  have hwide (width : Nat) (hwidth : width ≤ 8) :
      Reads .little (do return UInt64.ofNat (← unsigned width)) fun bs n =>
        bs.length = width ∧ n.toNat = Bytes.toNat .little bs :=
    ((reads_unsigned .little width).map UInt64.ofNat).mono fun bs n => by
      rintro ⟨n, ⟨rfl, hn⟩, rfl⟩
      have hlt : n < 2 ^ 64 := Nat.lt_of_lt_of_le hn
        (Nat.pow_le_pow_right (by decide : 0 < 256) hwidth)
      rw [Bytes.length_ofNat, Bytes.toNat_ofNat, Nat.mod_eq_of_lt hn,
        UInt64.toNat_ofNat_of_lt' hlt]
      exact ⟨rfl, rfl⟩
  have hbehind (first : UInt8) : Reads .little (CompactSize.behind first) fun bs n =>
      CompactSize.Form (first :: bs) n.toNat := by
    rw [CompactSize.behind]
    split
    · next hfirst =>
      subst hfirst
      refine (hwide 2 (by decide)).mono fun bs n => ?_
      rintro ⟨hlength, hn⟩
      rw [hn]
      exact .two hlength
    · split
      · next hfirst =>
        subst hfirst
        refine (hwide 4 (by decide)).mono fun bs n => ?_
        rintro ⟨hlength, hn⟩
        rw [hn]
        exact .four hlength
      · split
        · next hfirst =>
          subst hfirst
          refine (hwide 8 (by decide)).mono fun bs n => ?_
          rintro ⟨hlength, hn⟩
          rw [hn]
          exact .eight hlength
        · refine (reads_pure .little first.toUInt64).mono fun bs n => ?_
          rintro ⟨rfl, rfl⟩
          rw [UInt8.toNat_toUInt64]
          exact .short (by grind)
  refine ((reads_uint8 order).bind fun first => (hbehind first).withOrder).mono fun bs n => ?_
  rintro ⟨first, _, digits, rfl, rfl, hform⟩
  exact hform

/-- A count is read from any of its forms, and from nothing else. -/
theorem reads_length (order : ByteOrder) : Reads order length CompactSize.Form := by
  intro pastEnd input
  have hcount := reads_compactSize order pastEnd input
  rw [length]
  generalize CompactSize.decoder ⟨order, pastEnd⟩ input = outcome at hcount ⊢
  cases hcount with
  | error hpass hcause => exact .error hpass hcause
  | ok hpass hform =>
    dsimp only
    split
    · exact .ok hpass hform
    · refine .error hpass ?_
      rintro ⟨⟩

/-- **A byte string is read from the bytes behind a form of its length.** -/
theorem reads_varBytes (order : ByteOrder) :
    Reads order varBytes fun bs a => ∃ count, bs = count ++ a ∧ CompactSize.Form count a.length :=
  ((reads_length order).bind fun n => reads_take order n).mono fun bs a => by
    rintro ⟨n, count, _, rfl, hcount, rfl, rfl⟩
    exact ⟨count, rfl, hcount⟩

/-- A number of items is read from as many slices, one behind the other. -/
theorem reads_repeatOnto (h : Reads order d R) (count : Nat) (acc : List α) :
    Reads order (repeatOnto d count acc) fun bs items =>
      ∃ slices read, bs = slices.flatten ∧ items = acc.reverse ++ read ∧ read.length = count ∧
        List.Forall₂ R slices read := by
  induction count generalizing acc with
  | zero =>
    intro pastEnd input
    exact .ok (.refl input) ⟨[], [], rfl, (List.append_nil _).symm, rfl, .nil⟩
  | succ count ih =>
    intro pastEnd input
    have hfirst := h pastEnd input
    rw [repeatOnto]
    generalize d ⟨order, pastEnd⟩ input = outcome at hfirst ⊢
    cases hfirst with
    | error hpass hcause => exact .error hpass hcause
    | @ok slice a middle hpass ha =>
      have hrest := ih (a :: acc) pastEnd middle
      dsimp only
      generalize repeatOnto d count (a :: acc) ⟨order, pastEnd⟩ middle = outcome at hrest ⊢
      cases hrest with
      | error hpass' hcause => exact .error (hpass.append hpass') hcause
      | ok hpass' hitems =>
        obtain ⟨slices, read, rfl, rfl, hcount, hread⟩ := hitems
        refine .ok (hpass.append hpass') ⟨slice :: slices, a :: read, rfl, ?_, ?_, .cons ha hread⟩
        · rw [List.reverse_cons, List.append_assoc, List.singleton_append]
        · rw [List.length_cons, hcount]

/-- **A list is read from a form of its length and a slice for every item.** -/
theorem reads_vector (h : Reads order d R) :
    Reads order (vector d) fun bs items =>
      ∃ count slices, bs = count ++ slices.flatten ∧ CompactSize.Form count items.length ∧
        List.Forall₂ R slices items :=
  ((reads_length order).bind fun n => reads_repeatOnto h n []).mono fun bs items => by
    rintro ⟨n, count, _, rfl, hcount, slices, read, rfl, rfl, rfl, hread⟩
    exact ⟨count, slices, rfl, hcount, hread⟩

end Decoder

end LightPeer.Wire
