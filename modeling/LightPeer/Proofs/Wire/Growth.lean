import LightPeer.Wire.Writing

/-!
# Writing to a store that grows

A field that does not fit makes the store grow, perhaps in the middle of a record.  Where the cursor
lies within the data this does not show: the field stands where the cursor stood, what stood
elsewhere is still there, and whatever was added behind is zero.  `Wrote` says so, and it is kept
when one field is written behind another.

* `put_wrote` — one field;
* `Writing.run_eq` — a writing puts its fields into the store, and leaves its order in force;
* `Writing.run_wrote` — so it writes its bytes, however often the store had to grow;
* `Writing.exists_run` — nothing is refused that ends within half of the longest store;
* `Writing.written_row` — in a new store stand the bytes of one writing after another.
-/

namespace LightPeer.Wire

namespace Cursor

variable {c middle after : Cursor} {bs left right : Bytes}

/-- The bytes `bs` stand where the cursor stood and the cursor stands behind them.  All other bytes
are still there, and the store has grown by zeros only. -/
structure Wrote (c : Cursor) (bs : Bytes) (after : Cursor) : Prop where
  position : after.position = c.position + bs.length
  data : ∃ grown, after.data = c.data.take c.position ++
    (bs ++ (c.data.drop (c.position + bs.length) ++ Bytes.replicate grown 0))

/-- To write nothing leaves a store as it is. -/
theorem Wrote.refl (c : Cursor) : c.Wrote [] c where
  position := rfl
  data := ⟨0, by simp [Bytes.replicate]⟩

/-- The cursor stays within the data, since it moves over what has been written and no further. -/
theorem Wrote.inside (h : c.Wrote bs after) (hinside : c.position ≤ c.data.length) :
    after.position ≤ after.data.length := by
  obtain ⟨grown, hdata⟩ := h.data
  rw [h.position, hdata, List.length_append, List.length_append, List.length_take_of_le hinside]
  omega

/-- What is in front of the cursor is what was written. -/
theorem Wrote.written (h : c.Wrote bs after) (hinside : c.position ≤ c.data.length) :
    after.written = c.written ++ bs := by
  obtain ⟨grown, hdata⟩ := h.data
  have hlength : (c.data.take c.position ++ bs).length = c.position + bs.length := by
    rw [List.length_append, List.length_take_of_le hinside]
  rw [Cursor.written, h.position, hdata, ← List.append_assoc, ← hlength, List.take_left]
  rfl

/-- One part behind the other. -/
theorem Wrote.append (h : c.Wrote left middle) (h' : middle.Wrote right after)
    (hinside : c.position ≤ c.data.length) : c.Wrote (left ++ right) after := by
  obtain ⟨grown, hdata⟩ := h.data
  obtain ⟨grown', hdata'⟩ := h'.data
  have hlength : (c.data.take c.position ++ left).length = middle.position := by
    rw [h.position, List.length_append, List.length_take_of_le hinside]
  refine ⟨?_, grown - (right.length - (c.data.length - middle.position)) + grown', ?_⟩
  · rw [h'.position, h.position, List.length_append, Nat.add_assoc]
  · have hfront : middle.data.take middle.position = c.data.take c.position ++ left := by
      rw [hdata, ← List.append_assoc, ← hlength, List.take_left]
    have hbehind : middle.data.drop (middle.position + right.length) =
        c.data.drop (middle.position + right.length) ++
          Bytes.replicate (grown - (right.length - (c.data.length - middle.position))) 0 := by
      rw [← List.drop_drop, hdata, ← List.append_assoc, ← hlength, List.drop_left, hlength,
        List.drop_append, h.position, List.drop_drop, List.length_drop, Bytes.replicate,
        List.drop_replicate]
      rfl
    rw [hdata', hfront, hbehind, List.length_append, ← Nat.add_assoc, ← h.position]
    simp only [Bytes.replicate, List.append_assoc, List.replicate_append_replicate]

/-- The store is made long enough, and it is not made longer than twice what is needed. -/
theorem grownSize_bounds (c : Cursor) (count : Nat) (hinside : c.position ≤ c.data.length) :
    c.data.length ≤ c.grownSize count ∧ c.position + count ≤ c.grownSize count ∧
      (c.data.length < c.grownSize count → c.grownSize count ≤ 2 * (c.position + count)) := by
  rw [grownSize, remaining]
  split <;> omega

/-- **One field is written where the cursor stands, whether the store grows or not.** -/
theorem put_wrote (hinside : c.position ≤ c.data.length) (h : c.put bs = .ok after) :
    c.Wrote bs after ∧ after.order = c.order := by
  have hbounds := c.grownSize_bounds bs.length hinside
  rw [put] at h
  split at h
  · cases h
  · split at h
    · cases h
    · split at h
      · cases h
      · cases h
        refine ⟨⟨rfl, c.grownSize bs.length - max c.data.length (c.position + bs.length), ?_⟩, rfl⟩
        have hrest : c.grownSize bs.length - c.data.length -
              (c.position + bs.length - c.data.length) =
            c.grownSize bs.length - max c.data.length (c.position + bs.length) := by
          omega
        simp only [List.take_append_of_le_length hinside, List.drop_append, Bytes.replicate,
          List.drop_replicate, hrest]

/-- A field is written if it ends within half of the longest store: the store then grows to twice
what is needed, at most. -/
theorem exists_put (hinside : c.position ≤ c.data.length)
    (hfit : 2 * (c.position + bs.length) < sizeLimit) : ∃ after, c.put bs = .ok after := by
  have hbounds := c.grownSize_bounds bs.length hinside
  have hposition : ¬ positionLimit ≤ c.position + bs.length := by
    rw [sizeLimit] at hfit
    rw [positionLimit]
    omega
  have hsize : ¬ (c.data.length < c.grownSize bs.length ∧ sizeLimit ≤ c.grownSize bs.length) := by
    rintro ⟨hgrows, hlong⟩
    have := hbounds.2.2 hgrows
    omega
  have hrange : ¬ c.grownSize bs.length < c.position + bs.length := Nat.not_lt.mpr hbounds.2.1
  rw [put, if_neg hposition, if_neg hsize, if_neg hrange]
  exact ⟨_, rfl⟩

/-- The byte order does not matter to a field that is given as bytes. -/
theorem put_inOrder (c : Cursor) (bs : Bytes) (order : ByteOrder) :
    ({ c with order } : Cursor).put bs = (c.put bs).map fun next => { next with order } := by
  have hgrown : ({ c with order } : Cursor).grownSize bs.length = c.grownSize bs.length := rfl
  rw [put, put, hgrown]
  dsimp only
  split
  · rfl
  · split
    · rfl
    · split <;> rfl

/-- One field in a row is one field. -/
theorem putAll_singleton (bs : Bytes) (c : Cursor) : putAll [bs] c = c.put bs := by
  rw [putAll]
  cases c.put bs <;> rfl

/-- Fields are written one row after the other, and after the first failure there are no more. -/
theorem putAll_append (left right : List Bytes) (c : Cursor) :
    putAll (left ++ right) c =
      match putAll left c with
      | .ok next => putAll right next
      | .error cause => .error cause := by
  induction left generalizing c with
  | nil => rfl
  | cons bs left ih =>
    rw [List.cons_append, putAll, putAll]
    cases c.put bs with
    | error cause => rfl
    | ok next => exact ih next

/-- The byte order in force plays no part when bytes are written, and it is kept. -/
theorem putAll_inOrder (fs : List Bytes) (c : Cursor) (order : ByteOrder) :
    putAll fs { c with order } = (putAll fs c).map fun next => { next with order } := by
  induction fs generalizing c with
  | nil => rfl
  | cons bs fs ih =>
    rw [putAll, putAll, put_inOrder]
    cases c.put bs with
    | error cause => rfl
    | ok next => exact ih next

/-- **Fields are written one behind the other, wherever the store has to grow.** -/
theorem putAll_wrote {fs : List Bytes} (hinside : c.position ≤ c.data.length)
    (h : putAll fs c = .ok after) : c.Wrote fs.flatten after ∧ after.order = c.order := by
  induction fs generalizing c with
  | nil =>
    cases h
    exact ⟨.refl _, rfl⟩
  | cons bs fs ih =>
    rw [putAll] at h
    split at h
    · next next hput =>
      obtain ⟨hwrote, horder⟩ := put_wrote hinside hput
      obtain ⟨hrest, horder'⟩ := ih (hwrote.inside hinside) h
      rw [List.flatten_cons]
      exact ⟨hwrote.append hrest hinside, horder'.trans horder⟩
    · cases h

/-- Where the cursor is inside and there is room for twice what is written, nothing can fail. -/
theorem exists_putAll {fs : List Bytes} (hinside : c.position ≤ c.data.length)
    (hfit : 2 * (c.position + fs.flatten.length) < sizeLimit) :
    ∃ after, putAll fs c = .ok after := by
  induction fs generalizing c with
  | nil => exact ⟨c, rfl⟩
  | cons bs fs ih =>
    rw [List.flatten_cons, List.length_append] at hfit
    have hfirst : 2 * (c.position + bs.length) < sizeLimit := by omega
    obtain ⟨next, hput⟩ := exists_put hinside hfirst
    obtain ⟨hwrote, -⟩ := put_wrote hinside hput
    obtain ⟨after, hrest⟩ := ih (hwrote.inside hinside) (by rw [hwrote.position]; omega)
    refine ⟨after, ?_⟩
    rw [putAll, hput]
    exact hrest

end Cursor

namespace Writing

variable {w : Writing} {c after : Cursor}

/-- **A writing puts its fields into the store and leaves its order in force.** -/
theorem run_eq (w : Writing) (c : Cursor) :
    w.run c = (c.putAll (w.fields c.order)).map fun next =>
      { next with order := w.orderAfter c.order } := by
  induction w generalizing c with
  | nothing => rfl
  | setOrder order => rfl
  | bytes bs =>
    rw [run, fields, orderAfter, Cursor.putAll_singleton]
    exact c.put_inOrder bs c.order
  | unsigned width n =>
    rw [run, fields, orderAfter, Cursor.putAll_singleton]
    exact c.put_inOrder (Bytes.ofNat c.order width n) c.order
  | inOrder order part ih =>
    rw [run, ih, fields, orderAfter, Cursor.putAll_inOrder]
    cases c.putAll (part.fields order) <;> rfl
  | andThen first second ih ih' =>
    rw [run, ih, fields, orderAfter, Cursor.putAll_append]
    cases c.putAll (first.fields c.order) with
    | error cause => rfl
    | ok next =>
      show second.run { next with order := first.orderAfter c.order } =
        (next.putAll (second.fields (first.orderAfter c.order))).map _
      rw [ih', Cursor.putAll_inOrder]
      cases next.putAll (second.fields (first.orderAfter c.order)) <;> rfl

/-- **A writing writes its bytes**, and the fields that it is made of do not show. -/
theorem run_wrote (hinside : c.position ≤ c.data.length) (h : w.run c = .ok after) :
    c.Wrote (w.encoding c.order) after ∧ after.order = w.orderAfter c.order := by
  rw [run_eq] at h
  cases hfields : c.putAll (w.fields c.order) with
  | error cause =>
    rw [hfields] at h
    cases h
  | ok next =>
    rw [hfields] at h
    cases h
    obtain ⟨hwrote, -⟩ := Cursor.putAll_wrote hinside hfields
    exact ⟨⟨hwrote.position, hwrote.data⟩, rfl⟩

/-- A writing does not fail in a store that has room for twice its bytes. -/
theorem exists_run (hinside : c.position ≤ c.data.length)
    (hfit : 2 * (c.position + (w.encoding c.order).length) < Cursor.sizeLimit) :
    ∃ after, w.run c = .ok after := by
  obtain ⟨next, hfields⟩ := Cursor.exists_putAll hinside hfit
  refine ⟨{ next with order := w.orderAfter c.order }, ?_⟩
  rw [run_eq, hfields]
  rfl

/-- The bytes of several writings are those of each of them in turn. -/
theorem encoding_row (ws : List Writing) (order : ByteOrder) :
    (row ws).encoding order = (encodings ws order).flatten := by
  induction ws generalizing order with
  | nil => rfl
  | cons w ws ih =>
    show (w.fields order ++ (row ws).fields (w.orderAfter order)).flatten = _
    rw [List.flatten_append, encodings, List.flatten_cons, ← ih]
    rfl

variable {ws : List Writing} {capacity : Nat}

/-- **What several writings have put into a new store are their bytes in turn**, however long the
store was and wherever it grew. -/
theorem written_row (h : (row ws).run (.withCapacity capacity) = .ok after) :
    after.written = (encodings ws .little).flatten := by
  have hinside := Nat.zero_le (Cursor.withCapacity capacity).data.length
  obtain ⟨hwrote, -⟩ := run_wrote hinside h
  calc after.written
      = (Cursor.withCapacity capacity).written ++ (row ws).encoding .little :=
        hwrote.written hinside
    _ = (row ws).encoding .little := rfl
    _ = (encodings ws .little).flatten := encoding_row ws .little

/-- Nor does a row of writings in a new store, whatever its capacity. -/
theorem exists_row (hfit : 2 * (encodings ws .little).flatten.length < Cursor.sizeLimit) :
    ∃ after, (row ws).run (.withCapacity capacity) = .ok after := by
  have hbytes : 2 * (0 + ((row ws).encoding .little).length) < Cursor.sizeLimit := by
    rw [encoding_row, Nat.zero_add]
    exact hfit
  exact exists_run (Nat.zero_le _) hbytes

end Writing

end LightPeer.Wire
