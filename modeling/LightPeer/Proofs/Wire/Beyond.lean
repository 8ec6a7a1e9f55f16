import LightPeer.Proofs.Wire.Store

/-!
# Beyond the end of a store

The cursor of a store can be set anywhere, also behind the end of the data.  No byte is ahead of it
there.  Whatever needs a byte is refused before anything is addressed, and the cursor stays where it
is, as it does in front of the end when there are too few bytes.

What needs no byte is not refused by this.  To go over no bytes is a matter of the cursor alone.  To
take or to write no bytes addresses an empty range, and behind the end there is not even such a
range: a store has one at each place up to its end.

* `Cursor.addresses_take` — a number of bytes is taken wherever its range exists;
* `Needs.sound` — a decoder that begins with a field of a byte at least addresses no other range;
* `Cursor.put_nothing` — no bytes are written wherever their range exists.
-/

namespace LightPeer.Wire

namespace Cursor

variable {α β : Type} {n : Nat} {c : Cursor} {d : Decoder α}

/-- Reading `n` bytes does what is to be expected of it: if there are so many, then the cursor goes
over them, and if not, this is the answer and the cursor stays. -/
structure Serves (c : Cursor) (n : Nat) (d : Decoder α) : Prop where
  enough : n ≤ c.remaining → ∃ a, c.read d = (.ok a, { c with position := c.position + n })
  short : c.remaining < n → c.read d = (.error (.unexpectedEnd n c.remaining), c)

/-- The range of `n` bytes at the cursor is missing although there are enough bytes. -/
def Misses (c : Cursor) (n : Nat) : Prop := n = 0 ∧ c.data.length < c.position

/-- Reading `n` bytes does what is to be expected of it, unless their range is missing.  It is
addressed then as well. -/
structure Addresses (c : Cursor) (n : Nat) (d : Decoder α) : Prop where
  serves_iff : c.Serves n d ↔ ¬ c.Misses n
  misses : c.Misses n → c.read d = (.error .outOfBounds, c)

/-- What is read may be made into something else. -/
theorem Serves.of_map {d' : Decoder β} {f : α → β} (h : c.Serves n d)
    (hmap : c.read d' = ((c.read d).1.map f, (c.read d).2)) : c.Serves n d' := by
  constructor
  · intro henough
    obtain ⟨a, hread⟩ := h.enough henough
    refine ⟨f a, ?_⟩
    rw [hmap, hread]
    rfl
  · intro hshort
    rw [hmap, h.short hshort]
    rfl

/-- What is made of a value after it has been read does not move the cursor. -/
theorem read_map (d : Decoder α) (f : α → β) (c : Cursor) :
    c.read (d >>= fun a => pure (f a)) = ((c.read d).1.map f, (c.read d).2) := by
  have hbind : (d >>= fun a => pure (f a)) = d.andThen fun a => Decoder.succeed (f a) := rfl
  rw [read, read, hbind, Decoder.andThen]
  cases d c.context c.input <;> rfl

/-- Nor does it change what reading does where there are too few bytes. -/
theorem Serves.map (h : c.Serves n d) (f : α → β) :
    c.Serves n (d >>= fun a => pure (f a)) :=
  h.of_map (read_map d f c)

/-- Nor what it does where the range of the bytes is missing. -/
theorem Addresses.map (h : c.Addresses n d) (f : α → β) :
    c.Addresses n (d >>= fun a => pure (f a)) := by
  have hmisses (hnone : c.Misses n) :
      c.read (d >>= fun a => pure (f a)) = (.error .outOfBounds, c) := by
    rw [read_map, h.misses hnone]
    rfl
  refine ⟨⟨?_, fun hfound => (h.serves_iff.mpr hfound).map f⟩, hmisses⟩
  intro hserves hnone
  obtain ⟨b, hread⟩ := hserves.enough (hnone.1 ▸ Nat.zero_le _)
  rw [hmisses hnone] at hread
  cases hread

/-- **Bytes are taken as expected, unless their range is missing.** -/
theorem addresses_take (n : Nat) (c : Cursor) : c.Addresses n (Decoder.take n) := by
  have hmisses (hnone : c.Misses n) : c.read (Decoder.take n) = (.error .outOfBounds, c) := by
    obtain ⟨rfl, hbeyond⟩ := hnone
    have hrange : ¬ (c.position ≤ c.position + 0 ∧ c.position + 0 ≤ c.data.length) := by
      omega
    rw [read_take, getBytes, if_neg (Nat.not_lt_zero _), slice?, if_neg hrange]
  refine ⟨⟨?_, ?_⟩, hmisses⟩
  · intro hserves hnone
    obtain ⟨bs, hread⟩ := hserves.enough (hnone.1 ▸ Nat.zero_le _)
    rw [hmisses hnone] at hread
    cases hread
  · intro hfound
    constructor
    · intro henough
      have hrange : c.position ≤ c.position + n ∧ c.position + n ≤ c.data.length := by
        rw [Misses] at hfound
        rw [remaining] at henough
        omega
      rw [read_take, getBytes, if_neg (Nat.not_lt.mpr henough), slice?, if_pos hrange]
      exact ⟨_, rfl⟩
    · intro hshort
      rw [read_take, getBytes, if_pos hshort]

/-- To go over bytes addresses no range, so none of them can be missing in the way that a range
is. -/
theorem serves_skip (n : Nat) (c : Cursor) : c.Serves n (Decoder.skip n) := by
  have hahead : c.input.ahead.length = c.remaining := List.length_drop
  constructor
  · intro henough
    have hmany : Bytes.hasAtLeast n c.input.ahead := by
      rw [Bytes.hasAtLeast_iff, hahead]
      exact henough
    rw [read, Decoder.skip, if_pos hmany]
    exact ⟨(), rfl⟩
  · intro hshort
    have hfew : ¬ Bytes.hasAtLeast n c.input.ahead := by
      rw [Bytes.hasAtLeast_iff, hahead]
      exact Nat.not_le.mpr hshort
    rw [read, Decoder.skip, if_neg hfew, hahead]
    rfl

/-- A number of a byte at least has a range wherever there are enough bytes. -/
theorem serves_unsigned (width : Nat) (c : Cursor) :
    c.Serves (width + 1) (Decoder.unsigned (width + 1)) := by
  have hfound : ¬ c.Misses (width + 1) := fun hnone => Nat.succ_ne_zero width hnone.1
  have htaken := (addresses_take (width + 1) c).serves_iff.mpr hfound
  refine htaken.of_map (f := Bytes.toNat c.order) ?_
  rw [read, read, Decoder.unsigned]
  show _ = (Except.map (Bytes.toNat c.context.order) _, _)
  cases Decoder.take (width + 1) c.context c.input <;> rfl

end Cursor

namespace Decoder

variable {α β : Type} {n : Nat} {d : Decoder α}

/-- What is read begins with `n` bytes: where there are fewer, nothing is read. -/
def Needs (n : Nat) (d : Decoder α) : Prop :=
  ∀ context input, input.ahead.length < n →
    d context input = .error (.unexpectedEnd n input.ahead.length) input

/-- What needs bytes to begin with needs them whatever comes behind it. -/
theorem Needs.bind (h : Needs n d) (f : α → Decoder β) : Needs n (d >>= f) := by
  intro context input hfew
  show andThen d f context input = _
  rw [andThen, h context input hfew]

/-- The byte order has no part in how many bytes there are. -/
theorem Needs.withOrder (h : Needs n d) (order : ByteOrder) :
    Needs n (Decoder.withOrder order d) :=
  fun context input => h { context with order } input

/-- Nor is it of any matter that the bytes are kept. -/
theorem Needs.withConsumed (h : Needs n d) : Needs n (Decoder.withConsumed d) := by
  intro context input hfew
  rw [Decoder.withConsumed, h context input hfew]

/-- To read exactly `n` bytes takes `n` bytes. -/
theorem needs_exactly (n : Nat) : Needs n (exactly n) := by
  intro context input hfew
  have hfew' : ¬ Bytes.hasAtLeast n input.ahead := by
    rw [Bytes.hasAtLeast_iff]
    exact Nat.not_le.mpr hfew
  rw [exactly, dif_neg hfew']

theorem needs_take (n : Nat) : Needs n (take n) := (needs_exactly n).bind _

/-- A number takes as many bytes as its width says. -/
theorem needs_unsigned (width : Nat) : Needs width (unsigned width) := by
  intro context input hfew
  rw [unsigned, needs_take width context input hfew]

theorem needs_int32 : Needs 4 int32 := ((needs_unsigned 4).bind _).bind _

/-- A count begins with one byte. -/
theorem needs_compactSize : Needs 1 CompactSize.decoder := ((needs_unsigned 1).bind _).bind _

/-- A count takes one byte at least. -/
theorem needs_length : Needs 1 length := by
  intro context input hfew
  rw [length, needs_compactSize context input hfew]

/-- Wherever the cursor of a store stands, the answer is never that a range does not exist. -/
def Sound (d : Decoder α) : Prop := ∀ c : Cursor, (c.read d).1 ≠ .error .outOfBounds

/-- **No range is addressed that does not exist**, by a decoder that is steady and begins with a
field of a byte at least. -/
theorem Needs.sound (h : Needs n d) (hn : 0 < n) (hsteady : d.Steady) : d.Sound := by
  intro c hfault
  by_cases hinside : c.position ≤ c.data.length
  · exact (hsteady.careful c hinside).2 hfault
  · have hnone : c.input.ahead.length < n := by
      rw [Cursor.input, List.length_drop]
      omega
    rw [Cursor.read, h c.context c.input hnone] at hfault
    cases hfault

/-- What is made of a value addresses nothing, so it cannot miss anything either. -/
theorem Sound.map (h : d.Sound) (f : α → β) : Sound (d >>= fun a => pure (f a)) := by
  intro c hfault
  rw [Cursor.read_map] at hfault
  have hread := h c
  generalize (c.read d).1 = answer at hfault hread
  cases answer with
  | error cause =>
    cases hfault
    exact hread rfl
  | ok a => cases hfault

theorem sound_pure (a : α) : Sound (pure a) := fun _ => nofun

/-- A count never addresses a range that does not exist, since its first byte is missed before. -/
theorem sound_compactSize : CompactSize.decoder.Sound :=
  needs_compactSize.sound Nat.one_pos (steady_of_reads reads_compactSize)

theorem sound_length : length.Sound :=
  needs_length.sound Nat.one_pos (steady_of_reads reads_length)

theorem sound_varBytes : varBytes.Sound :=
  (needs_length.bind _).sound Nat.one_pos (steady_of_reads reads_varBytes)

/-- A list begins with its number, whatever its items are. -/
theorem sound_vector (hsteady : d.Steady) : (vector d).Sound :=
  (needs_length.bind _).sound Nat.one_pos hsteady.vector

end Decoder

/-- **To write no bytes is to do nothing wherever their range exists**, and is refused where it does
not. -/
theorem Cursor.put_nothing (c : Cursor) (hposition : c.position < positionLimit) :
    c.put [] = if c.data.length < c.position then .error .outOfBounds else .ok c := by
  have hsize : c.grownSize 0 = c.data.length := if_neg (Nat.not_lt_zero _)
  have hword : ¬ positionLimit ≤ c.position := Nat.not_le.mpr hposition
  rw [put]
  simp only [List.length_nil, Nat.add_zero, hsize, if_neg hword, Nat.lt_irrefl, false_and,
    if_false, Nat.sub_self]
  split
  · rfl
  · rw [List.nil_append, Bytes.replicate, List.replicate_zero, List.append_nil,
      List.take_append_drop]

end LightPeer.Wire
