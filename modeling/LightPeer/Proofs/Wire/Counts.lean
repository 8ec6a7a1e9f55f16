import LightPeer.Proofs.Wire.Forms
import LightPeer.Proofs.Wire.Order

/-!
# Counts in a store

A count is put into a store as a mark and its digits, and the store may grow before either.  Read
from the place where it was put it is the same count again, and the cursor stands where it stood
behind the writing.

A count is written in its shortest form.  It may be read from a longer one, and the number of bytes
that were gone over tells the two apart.

* `exists_putAll_iff` — a few bytes are refused only by a store that can neither hold them nor be
  made twice as long;
* `read_compactSize` — a count is read from a form of it that stands at the cursor;
* `counts_exact` — these facts about writing and reading.
-/

namespace LightPeer.Wire

namespace Cursor

variable {c after : Cursor} {bs : Bytes}

/-- There is room for `count` bytes at the cursor, or the store can be made twice as long. -/
def HasRoom (c : Cursor) (count : Nat) : Prop :=
  c.position + count ≤ c.data.length ∨ 2 * c.data.length < sizeLimit

/-- A field is written if the store that it needs is not too long. -/
theorem exists_put_iff (hinside : c.position ≤ c.data.length)
    (hstore : c.data.length < sizeLimit) :
    (∃ after, c.put bs = .ok after) ↔ c.grownSize bs.length < sizeLimit := by
  have hbounds := c.grownSize_bounds bs.length hinside
  rw [put]
  constructor
  · rintro ⟨after, hput⟩
    by_contra hlong
    have hlong := Nat.le_of_not_lt hlong
    rw [if_pos (⟨Nat.lt_of_lt_of_le hstore hlong, hlong⟩ : _ ∧ _)] at hput
    split at hput <;> cases hput
  · intro hshort
    have hposition : ¬ positionLimit ≤ c.position + bs.length := by
      rw [sizeLimit] at hshort
      rw [positionLimit]
      omega
    rw [if_neg hposition, if_neg fun hlong => Nat.not_le.mpr hshort hlong.2,
      if_neg (Nat.not_lt.mpr hbounds.2.1)]
    exact ⟨_, rfl⟩

/-- A store is as long afterwards as it had to be made. -/
theorem length_of_put_eq (hinside : c.position ≤ c.data.length) (h : c.put bs = .ok after) :
    after.data.length = c.grownSize bs.length := by
  have hbounds := c.grownSize_bounds bs.length hinside
  rw [put] at h
  split at h
  · cases h
  · split at h
    · cases h
    · split at h
      · cases h
      · cases h
        simp only [List.length_append, List.length_take, List.length_drop, Bytes.length_replicate]
        omega

/-- **A few bytes are written exactly if there is room for them**, in however many fields they come
and whichever of these makes the store grow. -/
theorem exists_putAll_iff {fs : List Bytes} (hinside : c.position ≤ c.data.length)
    (hstore : c.data.length < sizeLimit) (hfew : fs.flatten.length ≤ 9) :
    (∃ after, c.putAll fs = .ok after) ↔ c.HasRoom fs.flatten.length := by
  induction fs generalizing c with
  | nil => exact iff_of_true ⟨c, rfl⟩ (.inl hinside)
  | cons bs fs ih =>
    rw [List.flatten_cons, List.length_append] at hfew ⊢
    have hfirst : (∃ next, c.put bs = .ok next) ↔ c.grownSize bs.length < sizeLimit :=
      exists_put_iff hinside hstore
    have hgrown : c.grownSize bs.length =
        if c.position + bs.length ≤ c.data.length then c.data.length
        else max (2 * c.data.length) (max (2 * bs.length) (c.position + bs.length)) := by
      rw [grownSize, remaining]
      split <;> split <;> omega
    have hlimit : sizeLimit = 2 ^ 63 := rfl
    cases hput : c.put bs with
    | error cause =>
      have hlong : sizeLimit ≤ c.grownSize bs.length := by
        rw [← Nat.not_lt, ← hfirst, hput]
        rintro ⟨_, ⟨⟩⟩
      refine iff_of_false ?_ ?_
      · rw [putAll, hput]
        rintro ⟨_, ⟨⟩⟩
      · rw [HasRoom]
        split at hgrown <;> omega
    | ok next =>
      have hshort : c.grownSize bs.length < sizeLimit := hfirst.mp ⟨next, hput⟩
      obtain ⟨hwrote, -⟩ := put_wrote hinside hput
      have hlength := length_of_put_eq hinside hput
      have hrest := ih (hwrote.inside hinside) (hlength ▸ hshort) (by omega)
      rw [putAll, hput]
      refine hrest.trans ?_
      rw [HasRoom, HasRoom, hwrote.position, hlength]
      split at hgrown <;> omega

/-- What was written stands at the place where the cursor stood. -/
theorem Wrote.drop_data (h : c.Wrote bs after) (hinside : c.position ≤ c.data.length) :
    ∃ rest, after.data.drop c.position = bs ++ rest := by
  obtain ⟨grown, hdata⟩ := h.data
  refine ⟨c.data.drop (c.position + bs.length) ++ Bytes.replicate grown 0, ?_⟩
  have hfront : (c.data.take c.position).length = c.position := List.length_take_of_le hinside
  rw [hdata, List.drop_append_of_le_length (Nat.le_of_eq hfront.symm),
    List.drop_eq_nil_of_le (Nat.le_of_eq hfront), List.nil_append]

/-- Reading what was written leads the cursor back to where it stands. -/
theorem Wrote.read_back {α : Type} {d : Decoder α} {a : α} (h : c.Wrote bs after)
    (hinside : c.position ≤ c.data.length) (hd : d.Parses after.order bs a) :
    ({ after with position := c.position } : Cursor).read d = (.ok a, after) := by
  obtain ⟨rest, hahead⟩ := h.drop_data hinside
  have hstart : c.position ≤ after.data.length := by
    have hend := h.inside hinside
    have hmoved := h.position
    omega
  have hread := read_of_parses (c := { after with position := c.position }) hd hstart hahead
  rw [hread, ← h.position]

/-- A count is read from one of its forms, and the cursor is moved over this form. -/
theorem read_compactSize {n : UInt64} (h : c.read CompactSize.decoder = (.ok n, after)) :
    ∃ bs, c.slice? c.position after.position = some bs ∧
      after = { c with position := c.position + bs.length } ∧ CompactSize.Form bs n.toNat := by
  have hsome : ∀ n : UInt64, ¬ CompactSize.Form [] n.toNat := fun n hform => by cases hform
  obtain ⟨bs, hform, hslice, hafter⟩ :=
    slice?_of_read (Decoder.reads_compactSize c.order) hsome h
  exact ⟨bs, hslice, hafter, hform⟩

end Cursor

/-- **Counts are exact.**  A count is put into a store in one, three, five or nine bytes, the fewest
that a form of it has; it is refused only where the store can neither hold them nor be made twice as
long.  Read from where it was put, it is the same count, the cursor comes to stand where it stood
behind the writing, and the byte order is the one that was in force.  A count that is read from any
store was read from no fewer bytes than it is written in, and from as many just if they are
those. -/
theorem counts_exact :
    (∀ n : UInt64, CompactSize.size n =
        (if n.toNat ≤ 0xFC then 1 else if n.toNat ≤ 0xFFFF then 3
          else if n.toNat ≤ 0xFFFFFFFF then 5 else 9) ∧
      (CompactSize.encode n).length = CompactSize.size n ∧
      CompactSize.Form (CompactSize.encode n) n.toNat) ∧
      (∀ (n : UInt64) (c : Cursor),
        (Writing.compactSize n).run c = c.putAll (CompactSize.pieces n)) ∧
      (∀ (n : UInt64) (c : Cursor), c.position ≤ c.data.length →
        c.data.length < Cursor.sizeLimit →
        ((∃ after, (Writing.compactSize n).run c = .ok after) ↔
          c.HasRoom (CompactSize.size n)) ∧
        ∀ after, (Writing.compactSize n).run c = .ok after →
          c.Wrote (CompactSize.encode n) after ∧
          after.position = c.position + CompactSize.size n ∧ after.order = c.order ∧
          ({ after with position := c.position } : Cursor).read CompactSize.decoder =
            (.ok n, after)) ∧
      ∀ (n : UInt64) (c after : Cursor), c.read CompactSize.decoder = (.ok n, after) →
        ∃ bs, c.slice? c.position after.position = some bs ∧
          after = { c with position := c.position + bs.length } ∧
          CompactSize.size n ≤ bs.length ∧
          (CompactSize.size n = bs.length ↔ bs = CompactSize.encode n) := by
  have hrun (n : UInt64) (c : Cursor) :
      (Writing.compactSize n).run c = c.putAll (CompactSize.pieces n) :=
    (Writing.puts_compactSize n).orderFree.run_eq c
  refine ⟨?_, hrun, ?_, ?_⟩
  · intro n
    have hsize := CompactSize.size_ofNat n.toNat_lt
    rw [UInt64.ofNat_toNat] at hsize
    exact ⟨hsize, CompactSize.length_encode n, CompactSize.form_encode n⟩
  · intro n c hinside hstore
    have hbytes : (CompactSize.pieces n).flatten = CompactSize.encode n := rfl
    have hlength := CompactSize.length_encode n
    rw [hrun]
    refine ⟨?_, ?_⟩
    · have hfew : (CompactSize.pieces n).flatten.length ≤ 9 := by
        rw [hbytes, hlength, CompactSize.size]
        grind
      rw [Cursor.exists_putAll_iff hinside hstore hfew, hbytes, hlength]
    · intro after hput
      obtain ⟨hwrote, horder⟩ := Cursor.putAll_wrote hinside hput
      rw [hbytes] at hwrote
      refine ⟨hwrote, hlength ▸ hwrote.position, horder, ?_⟩
      exact hwrote.read_back hinside (Decoder.parses_compactSize after.order n)
  · intro n c after hread
    obtain ⟨bs, hslice, hafter, hform⟩ := Cursor.read_compactSize hread
    have hshort := hform.length_encode_le
    rw [UInt64.ofNat_toNat, CompactSize.length_encode] at hshort
    refine ⟨bs, hslice, hafter, hshort, ?_, ?_⟩
    · intro hlength
      rw [← CompactSize.length_encode] at hlength
      exact hform.eq_of_length_eq (CompactSize.form_encode n) hlength.symm
    · intro hwritten
      rw [hwritten, CompactSize.length_encode]

/-- In the middle of a store that is in the other order `0x0304` takes three bytes, and the store
grows.  Three bytes that hold `5` are not what is written for it. -/
theorem counts_exact_grown :
    (∃ after, (Writing.compactSize 0x0304).run ⟨[9, 9], 1, .big⟩ = .ok after ∧
        after.data = [9, 0xFD, 4, 3] ∧ after.position = 4 ∧ after.order = .big ∧
        ({ after with position := 1 } : Cursor).read CompactSize.decoder =
          (.ok 0x0304, after)) ∧
      (⟨[0xFD, 5, 0], 0, .big⟩ : Cursor).read CompactSize.decoder =
        (.ok 5, ⟨[0xFD, 5, 0], 3, .big⟩) ∧
      CompactSize.size 5 ≤ 3 ∧ CompactSize.size 5 ≠ 3 := by
  obtain ⟨-, -, hwrites, hreads⟩ := counts_exact
  obtain ⟨hroom, hwritten⟩ := hwrites 0x0304 ⟨[9, 9], 1, .big⟩ (by decide) (by decide)
  obtain ⟨after, hrun⟩ := hroom.mpr (.inr (by decide))
  obtain ⟨-, hposition, horder, hback⟩ := hwritten after hrun
  have hread : (⟨[0xFD, 5, 0], 0, .big⟩ : Cursor).read CompactSize.decoder =
      (.ok 5, ⟨[0xFD, 5, 0], 3, .big⟩) := rfl
  obtain ⟨bs, hslice, -, hshort, hsame⟩ := hreads 5 _ _ hread
  cases hslice
  have hdata : after.data = [9, 0xFD, 4, 3] := by
    cases hrun
    rfl
  refine ⟨⟨after, hrun, hdata, hposition, horder, hback⟩, hread, hshort, ?_⟩
  exact fun hlength => absurd (hsame.mp hlength) (by decide)

end LightPeer.Wire
