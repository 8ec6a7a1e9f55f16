import LightPeer.Proofs.Wire.Store
import LightPeer.Wire.Unchecked

/-!
# How far a value extends

A count is compared with all the bytes behind it, those of later records as well.  Yet what
follows a value has no say in it: a list whose items take a byte each, at least, needs more bytes
than its count, and a byte string exactly as many.  So a count that is refused at once would have
been refused in the end, and one that is accepted is accepted with fewer bytes behind it too, if
they are those of the items.

A decoder is *local* if the bytes that it goes over would give the same value wherever they stand,
and *delimited* if besides there is always one of them.

* `Local.bind`, `Delimited.bind`, `Delimited.vector` — decoders that are put together;
* `Delimited.selfDelimiting` — a delimited value is read from its own bytes and from no fewer;
* `Delimited.vector_refusesEarly`, `varBytes_refusesEarly` — the comparison refuses nothing that
  could be read.
-/

namespace LightPeer.Wire

/-- Every form of a number begins with a byte. -/
theorem CompactSize.Form.ne_nil {bs : Bytes} {n : Nat} (h : Form bs n) : bs ≠ [] := by
  cases h <;> exact List.cons_ne_nil _ _

namespace Cursor

variable {c : Cursor} {bs : Bytes} {start stop : Nat}

/-- A range of the store is what stands in front of some rest. -/
theorem exists_of_slice?_eq_some (h : c.slice? start stop = some bs) :
    start ≤ c.data.length ∧ stop = start + bs.length ∧ ∃ rest, c.data.drop start = bs ++ rest := by
  rw [slice?] at h
  split at h
  · next hrange =>
    have hbs : (c.data.drop start).take (stop - start) = bs := Option.some.inj h
    have hlength : bs.length = stop - start := by
      rw [← hbs, List.length_take, List.length_drop]
      omega
    refine ⟨by omega, by omega, (c.data.drop start).drop (stop - start), ?_⟩
    rw [← hbs, List.take_append_drop]
  · cases h

/-- The ranges of a store that is cut short are ranges of the whole one. -/
theorem slice?_of_take {r : Nat}
    (h : ({ c with data := c.data.take r } : Cursor).slice? start stop = some bs) :
    c.slice? start stop = some bs ∧ stop ≤ r := by
  rw [slice?] at h
  split at h
  · next hrange =>
    have hlength : stop ≤ r ∧ stop ≤ c.data.length := by
      have := hrange.2
      rw [List.length_take] at this
      omega
    refine ⟨?_, hlength.1⟩
    rw [slice?, if_pos ⟨hrange.1, hlength.2⟩, ← Option.some.inj h, List.drop_take, List.take_take,
      Nat.min_eq_left (by omega)]
  · cases h

/-- What a decoder parses it reads from wherever its bytes are found. -/
theorem read_of_slice? {α : Type} {d : Decoder α} {a : α} (hd : d.Parses c.order bs a)
    (h : c.slice? c.position stop = some bs) :
    c.read d = (.ok a, { c with position := stop }) := by
  obtain ⟨hinside, hstop, rest, hahead⟩ := exists_of_slice?_eq_some h
  rw [hstop]
  exact read_of_parses hd hinside hahead

end Cursor

namespace Decoder

variable {α β : Type} {order : ByteOrder} {d : Decoder α} {f : α → Decoder β}

/-- The bytes that `d` goes over when it reads a value are bytes that it reads this value from,
wherever they stand and whatever comes behind them. -/
def Local (order : ByteOrder) (d : Decoder α) : Prop :=
  Reads order d fun bs a => Parses order d bs a

/-- A local decoder that reads nothing without a byte. -/
def Delimited (order : ByteOrder) (d : Decoder α) : Prop :=
  Reads order d fun bs a => bs ≠ [] ∧ Parses order d bs a

/-- Items that take a byte each are not more than their bytes. -/
theorem forall_ne_nil_of_forall₂ {R : Bytes → α → Prop} {slices : List Bytes} {items : List α}
    (h : List.Forall₂ (fun bs a => bs ≠ [] ∧ R bs a) slices items) :
    ∀ slice ∈ slices, slice ≠ [] := by
  induction h with
  | nil => nofun
  | cons hfirst _ ih => exact List.forall_mem_cons.mpr ⟨hfirst.1, ih⟩

/-- Nothing is gone over by what reads nothing, and so it does not matter what would come next. -/
theorem local_pure (order : ByteOrder) (a : α) : Local order (pure a) := by
  apply (reads_pure order a).mono
  rintro _ _ ⟨rfl, rfl⟩
  exact parses_pure order _

/-- What always goes over some byte is local in particular. -/
theorem Delimited.isLocal (h : Delimited order d) : Local order d :=
  h.mono fun _ _ hread => hread.2

/-- The second decoder starts where the bytes of the first one end. -/
theorem Local.bind (h : Local order d) (h' : ∀ a, Local order (f a)) : Local order (d >>= f) := by
  apply (Reads.bind h h').mono
  rintro bs b ⟨a, left, right, rfl, ha, hb⟩
  exact ha.bind hb

/-- Of two local decoders, the first of which goes over some byte, the values are read from the
bytes of both. -/
theorem Delimited.bind (h : Delimited order d) (h' : ∀ a, Local order (f a)) :
    Delimited order (d >>= f) := by
  apply (Reads.bind h h').mono
  rintro bs b ⟨a, left, right, rfl, ⟨hsome, ha⟩, hb⟩
  exact ⟨List.append_ne_nil_of_left_ne_nil hsome right, ha.bind hb⟩

theorem Delimited.map (h : Delimited order d) (g : α → β) :
    Delimited order (d >>= fun a => pure (g a)) :=
  h.bind fun a => local_pure order (g a)

/-- A byte order that is set for some reading is part of it, and the same wherever this is done. -/
theorem Delimited.withOrder {order' : ByteOrder} (h : Delimited order d) :
    Delimited order' (Decoder.withOrder order d) :=
  h

/-- To keep the bytes that were gone over is to keep what the value was read from. -/
theorem Delimited.withConsumed (h : Delimited order d) :
    Delimited order (Decoder.withConsumed d) := by
  apply (Reads.withConsumed h).mono
  rintro bs ⟨a, consumed⟩ ⟨⟨hsome, ha⟩, rfl⟩
  exact ⟨hsome, ha.withConsumed⟩

/-- A number is read from its four bytes. -/
theorem delimited_uint32 (order : ByteOrder) : Delimited order uint32 := by
  apply (reads_uint32 order).mono
  rintro bs n rfl
  exact ⟨List.length_pos_iff.mp (by simp), parses_uint32 order n⟩

/-- A hash is read from its bytes. -/
theorem delimited_hash (order : ByteOrder) : Delimited order hashDecoder := by
  apply (reads_hash order).mono
  rintro bs h rfl
  have hlength := h.length_bytes
  exact ⟨List.length_pos_iff.mp (by omega), parses_hash order h⟩

/-- A byte string ends as many bytes behind its count as this says. -/
theorem delimited_varBytes (order : ByteOrder) : Delimited order varBytes := by
  apply (reads_varBytes order).mono
  rintro _ bs ⟨count, rfl, hcount⟩
  exact ⟨List.append_ne_nil_of_left_ne_nil hcount.ne_nil bs, parses_counted order hcount⟩

/-- **A list of delimited items is delimited.**  The count is no larger than the number of bytes
that the items themselves take. -/
theorem Delimited.vector (h : Delimited order d) : Delimited order (vector d) := by
  apply (reads_vector h).mono
  rintro _ items ⟨count, slices, rfl, hcount, hslices⟩
  exact ⟨List.append_ne_nil_of_left_ne_nil hcount.ne_nil _,
    parses_slices order hcount (hslices.imp fun _ _ hslice => hslice.2)
      (forall_ne_nil_of_forall₂ hslices)⟩

/-- What is read from a store is settled by the bytes between the two places of the cursor. -/
structure SelfDelimiting (d : Decoder α) : Prop where
  /-- From the same bytes at the same place the same value is read in every store, and the cursor
  is left at the same place. -/
  of_slice : ∀ (c after : Cursor) (a : α), c.read d = (.ok a, after) →
    ∃ bs, c.slice? c.position after.position = some bs ∧
      ∀ other : Cursor, other.position = c.position → other.order = c.order →
        other.slice? c.position after.position = some bs →
          other.read d = (.ok a, { other with position := after.position })
  /-- A store that ends before those bytes do gives no value. -/
  of_cut : ∀ (c after : Cursor) (a : α), c.read d = (.ok a, after) →
    ∀ r, c.position ≤ r → r < after.position →
      ∃ cause, (({ c with data := c.data.take r } : Cursor).read d).1 = .error cause
  /-- Bytes behind a value do not change it. -/
  of_append : ∀ (order : ByteOrder) (bs rest : Bytes) (a : α) (after : Cursor),
    Cursor.read d ⟨bs, 0, order⟩ = (.ok a, after) →
      Cursor.read d ⟨bs ++ rest, 0, order⟩ = (.ok a, ⟨bs ++ rest, after.position, order⟩)
  /-- No bytes that a value is read from are the beginning of others. -/
  prefix_free : ∀ (order : ByteOrder) (bs more : Bytes) (a b : α),
    Cursor.read d ⟨bs, 0, order⟩ = (.ok a, ⟨bs, bs.length, order⟩) →
      Cursor.read d ⟨bs ++ more, 0, order⟩ = (.ok b, ⟨bs ++ more, (bs ++ more).length, order⟩) →
        more = []

/-- A successful reading of a delimited value can be repeated in every store that has its bytes. -/
theorem Delimited.of_slice (h : ∀ order, Delimited order d) {c after : Cursor} {a : α}
    (hread : c.read d = (.ok a, after)) :
    ∃ bs, c.slice? c.position after.position = some bs ∧
      ∀ other : Cursor, other.position = c.position → other.order = c.order →
        other.slice? c.position after.position = some bs →
          other.read d = (.ok a, { other with position := after.position }) := by
  have hsome : ∀ a, ¬ (([] : Bytes) ≠ [] ∧ Parses c.order d [] a) := fun a hnone => hnone.1 rfl
  obtain ⟨bs, ⟨-, hparses⟩, hslice, -⟩ := Cursor.slice?_of_read (h c.order) hsome hread
  refine ⟨bs, hslice, ?_⟩
  intro other hposition horder hother
  rw [← horder] at hparses
  rw [← hposition] at hother
  exact Cursor.read_of_slice? hparses hother

/-- **A value that was read is read again with other bytes behind it**, and the cursor stops at the
same place. -/
theorem Delimited.of_append (h : ∀ order, Delimited order d) {bs : Bytes} (rest : Bytes) {a : α}
    {after : Cursor} (hread : Cursor.read d ⟨bs, 0, order⟩ = (.ok a, after)) :
    Cursor.read d ⟨bs ++ rest, 0, order⟩ = (.ok a, ⟨bs ++ rest, after.position, order⟩) := by
  obtain ⟨read, hslice, hagain⟩ := of_slice h hread
  refine hagain ⟨bs ++ rest, 0, order⟩ rfl rfl ?_
  have hcut : ({ (⟨bs ++ rest, 0, order⟩ : Cursor) with
      data := (bs ++ rest).take bs.length } : Cursor).slice? 0 after.position = some read := by
    rw [List.take_left]
    exact hslice
  exact (Cursor.slice?_of_take hcut).1

/-- **A delimited value is read from its own bytes and from no fewer.**  If it were read from a
store that is cut short, then it would be read from the whole store in the same way, and the cursor
would have stopped earlier. -/
theorem Delimited.selfDelimiting (h : ∀ order, Delimited order d) : SelfDelimiting d where
  of_slice c after a hread := of_slice h hread
  of_cut c after a hread r hstart hstop := by
    cases hcut : ({ c with data := c.data.take r } : Cursor).read d with
    | mk answer stopped =>
      cases answer with
      | error cause => exact ⟨cause, rfl⟩
      | ok b =>
        obtain ⟨bs, hslice, hagain⟩ := of_slice h hcut
        obtain ⟨hwhole, hbound⟩ := Cursor.slice?_of_take hslice
        have hsame : c.read d = (.ok b, { c with position := stopped.position }) :=
          hagain c rfl rfl hwhole
        rw [hread] at hsame
        have hposition : after.position = stopped.position :=
          congrArg (fun outcome => outcome.2.position) hsame
        omega
  of_append _ _ rest _ _ hread := of_append h rest hread
  prefix_free order bs more a b hshort hlong := by
    have hsame := of_append h more hshort
    rw [hlong] at hsame
    have hposition : (bs ++ more).length = bs.length :=
      congrArg (fun outcome => outcome.2.position) hsame
    rw [List.length_append] at hposition
    exact List.length_eq_zero_iff.mp (by omega)

/-- `checked` answers as `plain` does, but where `plain` fails it may have refused a count. -/
structure RefusesEarly (checked plain : Decoder α) : Prop where
  /-- They read the same values and leave the cursor at the same place. -/
  succeeds_iff : ∀ (c after : Cursor) (a : α),
    c.read checked = (.ok a, after) ↔ c.read plain = (.ok a, after)
  /-- If they differ at all then both fail, and a count was refused. -/
  of_ne : ∀ c : Cursor, c.read checked ≠ c.read plain →
    (∃ n, (c.read checked).1 = .error (.lengthOverflow n)) ∧
      ∃ cause, (c.read plain).1 = .error cause

/-- A count makes no difference unless it is larger than the number of bytes behind it.  Then it
is refused, and without the comparison the reading goes on from there. -/
theorem length_bind_eq (f : Nat → Decoder α) (context : Context) (input : Input) :
    (length >>= f) context input = (CompactSize.decoder >>= fun n => f n.toNat) context input ∨
      ∃ n counted, counted.ahead.length < n.toNat ∧
        (length >>= f) context input = .error (.lengthOverflow n) counted ∧
        (CompactSize.decoder >>= fun n => f n.toNat) context input =
          f n.toNat context counted := by
  show andThen length f context input =
      andThen CompactSize.decoder (fun n => f n.toNat) context input ∨
    ∃ n counted, counted.ahead.length < n.toNat ∧
      andThen length f context input = .error (.lengthOverflow n) counted ∧
      andThen CompactSize.decoder (fun n => f n.toNat) context input = f n.toNat context counted
  rw [andThen, andThen, length]
  cases CompactSize.decoder context input with
  | error cause counted => exact .inl rfl
  | ok n counted =>
    by_cases hsize : Bytes.hasAtLeast n.toNat counted.ahead
    · left
      simp only [if_pos hsize]
    · right
      rw [Bytes.hasAtLeast_iff] at hsize
      refine ⟨n, counted, by omega, ?_, rfl⟩
      rw [← Bytes.hasAtLeast_iff] at hsize
      simp only [if_neg hsize]

/-- **The comparison refuses nothing that could be read**, if what is read for a count takes a byte
at least for everything counted. -/
theorem length_bind_refusesEarly {f : Nat → Decoder α}
    (hf : ∀ order n, Reads order (f n) fun bs _ => n ≤ bs.length) :
    RefusesEarly (length >>= f) (CompactSize.decoder >>= fun n => f n.toNat) := by
  have hcases (c : Cursor) : c.read (length >>= f) =
        c.read (CompactSize.decoder >>= fun n => f n.toNat) ∨
      (∃ n, (c.read (length >>= f)).1 = .error (.lengthOverflow n)) ∧
        ∃ cause, (c.read (CompactSize.decoder >>= fun n => f n.toNat)).1 = .error cause := by
    obtain hsame | ⟨n, counted, hfew, hchecked, hplain⟩ := length_bind_eq f c.context c.input
    · left
      rw [Cursor.read, Cursor.read, hsame]
    · right
      have hrest : (f n.toNat c.context counted).Follows c.context.pastEnd
          (fun bs _ => n.toNat ≤ bs.length) counted := hf c.order n.toNat _ counted
      rw [Cursor.read, Cursor.read, hchecked, hplain]
      refine ⟨⟨n, rfl⟩, ?_⟩
      generalize f n.toNat c.context counted = outcome at hrest ⊢
      cases hrest with
      | error => exact ⟨_, rfl⟩
      | ok hpass hpaid =>
        have hlength := congrArg List.length hpass.ahead
        rw [List.length_append] at hlength
        omega
  refine ⟨?_, ?_⟩
  · intro c after a
    obtain hsame | ⟨⟨n, hchecked⟩, cause, hplain⟩ := hcases c
    · rw [hsame]
    · constructor
      · intro hread
        rw [hread] at hchecked
        cases hchecked
      · intro hread
        rw [hread] at hplain
        cases hplain
  · intro c hne
    exact (hcases c).resolve_left hne

/-- A list whose items take a byte each cannot have more items than there are bytes, so a count of
more could be refused before any item is read. -/
theorem Delimited.vector_refusesEarly (h : ∀ order, Delimited order d) :
    RefusesEarly (Decoder.vector d) (vectorUnchecked d) := by
  refine length_bind_refusesEarly fun order n => ?_
  apply (reads_repeatOnto (h order) n []).mono
  rintro _ items ⟨slices, read, rfl, -, rfl, hread⟩
  rw [← hread.length_eq]
  exact length_le_length_flatten (forall_ne_nil_of_forall₂ hread)

/-- A byte string that is longer than what is left would not be read anyway. -/
theorem varBytes_refusesEarly : RefusesEarly varBytes varBytesUnchecked := by
  refine length_bind_refusesEarly fun order n => ?_
  apply (reads_take order n).mono
  rintro _ bs ⟨rfl, rfl⟩
  exact Nat.le_refl _

/-- Missing bytes of a byte string are found missing before the cursor moves, by their count or
without it. -/
theorem read_varBytes_snd (c : Cursor) : (c.read varBytes).2 = (c.read varBytesUnchecked).2 := by
  obtain hsame | ⟨n, counted, hfew, hchecked, hplain⟩ := length_bind_eq take c.context c.input
  · exact congrArg (fun outcome => { c with position := outcome.next.position }) hsame
  · have htake : take n.toNat c.context counted =
        .error (.unexpectedEnd n.toNat counted.ahead.length) counted := by
      have hsize : ¬ Bytes.hasAtLeast n.toNat counted.ahead := by
        rw [Bytes.hasAtLeast_iff]
        omega
      show andThen (exactly n.toNat) (fun bs => succeed bs.val) c.context counted = _
      rw [andThen, exactly, dif_neg hsize]
    rw [Cursor.read, Cursor.read, varBytes, varBytesUnchecked, hchecked, hplain, htake]
    rfl

end Decoder

end LightPeer.Wire
