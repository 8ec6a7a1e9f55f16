import LightPeer.Proofs.Wire.Reading
import LightPeer.Wire.Cursor

/-!
# Reading from a store

A decoder is told the byte order and is given the bytes ahead.  On a store the same reading is a
row of steps: a range is addressed, the cursor is moved, a byte order is set and put back.
`read_take`, `read_bind`, `read_withOrder` and `read_withConsumed` compare the two.

* `read_steps` — a reading moves the cursor over the bytes that it reads, and does nothing else;
* `Steady.careful` — so a store whose cursor lies within its data stays one, and no range
  outside of it is addressed.
-/

namespace LightPeer.Wire

namespace Cursor

variable {α β : Type} {c : Cursor} {d : Decoder α} {R : Bytes → α → Prop}

/-- The bytes are taken as if by their range in the store, which is what can be missing there. -/
theorem read_take (count : Nat) (c : Cursor) : c.read (Decoder.take count) = c.getBytes count := by
  have hahead : c.input.ahead.length = c.remaining := List.length_drop
  have htake : Decoder.take count = Decoder.andThen (Decoder.exactly count) fun bs =>
      Decoder.succeed bs.val := rfl
  rw [read, htake, Decoder.andThen, Decoder.exactly, getBytes]
  by_cases hsize : c.remaining < count
  · have hfew : ¬ Bytes.hasAtLeast count c.input.ahead := by
      rw [Bytes.hasAtLeast_iff]
      omega
    simp only [dif_neg hfew, if_pos hsize, hahead]
    rfl
  · have hmany : Bytes.hasAtLeast count c.input.ahead := by
      rw [Bytes.hasAtLeast_iff]
      omega
    rw [remaining] at hsize
    by_cases hinside : c.position ≤ c.data.length
    · have hrange : c.position ≤ c.position + count ∧ c.position + count ≤ c.data.length := by
        omega
      have hsound : ¬ (count = 0 && c.context.pastEnd) = true := by
        simp [context, Nat.not_lt.mpr hinside]
      simp only [dif_pos hmany, if_neg hsound, remaining, if_neg hsize, slice?, if_pos hrange,
        Nat.add_sub_cancel_left]
      rfl
    · have hrange : ¬ (c.position ≤ c.position + count ∧ c.position + count ≤ c.data.length) := by
        omega
      have hbeyond : (count = 0 && c.context.pastEnd) = true := by
        have hnone : count = 0 := by omega
        simp [context, hnone, Nat.not_le.mp hinside]
      simp only [dif_pos hmany, if_pos hbeyond, remaining, if_neg hsize, slice?, if_neg hrange]
      rfl

/-- A byte order is in force for the one reading only. -/
theorem read_withOrder (order : ByteOrder) (d : Decoder α) (c : Cursor) :
    c.read (Decoder.withOrder order d) = c.inOrder order (read d) :=
  rfl

/-- The bytes ahead of the cursor are a range of the store, unless they are none beyond its end. -/
theorem slice?_of_drop_eq {bs rest : Bytes} {position : Nat}
    (h : c.data.drop position = bs ++ rest) (hstart : position ≤ c.data.length ∨ bs ≠ []) :
    c.slice? position (position + bs.length) = some bs := by
  have hlength := congrArg List.length h
  rw [List.length_drop, List.length_append] at hlength
  have hrange : position ≤ position + bs.length ∧ position + bs.length ≤ c.data.length := by
    obtain hinside | hsome := hstart
    · omega
    · have := List.length_pos_iff.mpr hsome
      omega
  rw [slice?, if_pos hrange, h, Nat.add_sub_cancel_left, List.take_left]

/-- **A reading moves the cursor over the bytes that it reads**, and changes nothing else. -/
theorem read_steps (h : d.Reads c.order R) :
    ∃ bs rest, c.data.drop c.position = bs ++ rest ∧
      (c.read d).2 = { c with position := c.position + bs.length } ∧
      (∀ a, (c.read d).1 = .ok a → R bs a) ∧
      ((c.read d).1 = .error .outOfBounds → c.data.length < c.position) := by
  have hd : (d c.context c.input).Follows c.context.pastEnd R c.input := h _ _
  rw [read]
  generalize d c.context c.input = outcome at hd
  cases hd with
  | @ok bs a next hpass ha =>
    refine ⟨bs, next.ahead, hpass.ahead, ?_, ?_, nofun⟩
    · rw [← show next.position = c.position + bs.length from hpass.position]
      rfl
    · rintro _ ⟨⟩
      exact ha
  | @error bs cause next hpass hcause =>
    refine ⟨bs, next.ahead, hpass.ahead, ?_, nofun, ?_⟩
    · rw [← show next.position = c.position + bs.length from hpass.position]
      rfl
    · rintro ⟨⟩
      exact of_decide_eq_true (hcause rfl)

/-- Decoders one after another read as steps one after another. -/
theorem read_bind (h : d.Reads c.order R) (f : α → Decoder β) :
    c.read (d >>= f) = c.andThen (read d) fun a => read (f a) := by
  have hd : (d c.context c.input).Follows c.context.pastEnd R c.input := h _ _
  show ((Decoder.andThen d f c.context c.input).toExcept,
    { c with position := (Decoder.andThen d f c.context c.input).next.position }) = _
  rw [Decoder.andThen, andThen, read]
  generalize d c.context c.input = outcome at hd
  cases hd with
  | error hpass hcause => rfl
  | @ok bs a next hpass ha =>
    have hposition : next.position = c.position + bs.length := hpass.position
    have hahead : c.data.drop c.position = bs ++ next.ahead := hpass.ahead
    have hlength := congrArg List.length hahead
    rw [List.length_drop, List.length_append] at hlength
    have hcontext : { c with position := next.position }.context = c.context := by
      simp only [context, hposition, Context.mk.injEq, decide_eq_decide, true_and]
      omega
    have hinput : { c with position := next.position }.input = next := by
      rw [input, hposition, ← List.drop_drop, hahead, List.drop_left, ← hposition]
    show _ = read (f a) { c with position := next.position }
    rw [read, hcontext, hinput]

/-- The bytes that a value was read from are addressed by the places where the cursor stood before
and stands afterwards.  There are such bytes, so it does not matter what is done without them. -/
theorem read_withConsumed (h : d.Reads c.order R) (hinside : c.position ≤ c.data.length)
    (absent : α → Cursor → Except Error (α × Bytes) × Cursor) :
    c.read (Decoder.withConsumed d) = c.andThen (read d) fun a next =>
      match c.slice? c.position next.position with
      | some bs => (.ok (a, bs), next)
      | none => absent a next := by
  have hd : (d c.context c.input).Follows c.context.pastEnd R c.input := h _ _
  rw [read, Decoder.withConsumed, andThen, read]
  generalize d c.context c.input = outcome at hd
  cases hd with
  | error hpass hcause => rfl
  | @ok bs a next hpass ha =>
    have hposition : next.position = c.position + bs.length := hpass.position
    have hahead : c.data.drop c.position = bs ++ next.ahead := hpass.ahead
    have hslice : c.slice? c.position next.position = some bs := by
      rw [hposition]
      exact slice?_of_drop_eq hahead (.inl hinside)
    have hconsumed : c.input.ahead.take (next.position - c.input.position) = bs := by
      rw [input, hposition, hahead, Nat.add_sub_cancel_left, List.take_left]
    simp only [hconsumed, Outcome.toExcept, Outcome.next, hslice]

/-- A successful reading is one of a range of the store. -/
theorem slice?_of_read {after : Cursor} {a : α} (hd : d.Reads c.order R)
    (hsome : ∀ a, ¬ R [] a) (h : c.read d = (.ok a, after)) :
    ∃ bs, R bs a ∧ c.slice? c.position after.position = some bs ∧
      after = { c with position := c.position + bs.length } := by
  obtain ⟨bs, rest, hahead, hafter, hvalue, -⟩ := read_steps hd
  rw [h] at hafter hvalue
  have hR := hvalue a rfl
  have hbs : bs ≠ [] := by
    rintro rfl
    exact hsome a hR
  refine ⟨bs, hR, ?_, hafter⟩
  rw [show after.position = c.position + bs.length from congrArg position hafter]
  exact slice?_of_drop_eq hahead (.inr hbs)

/-- What a decoder parses it reads from a store, wherever it stands in it. -/
theorem read_of_parses {bs rest : Bytes} {a : α} (hd : d.Parses c.order bs a)
    (hinside : c.position ≤ c.data.length) (hahead : c.data.drop c.position = bs ++ rest) :
    c.read d = (.ok a, { c with position := c.position + bs.length }) := by
  have hcontext : c.context = ⟨c.order, false⟩ := by
    rw [context, decide_eq_false (Nat.not_lt.mpr hinside)]
  rw [read, input, hcontext, hahead, hd]
  rfl

/-- The data and the byte order are as they were, and the cursor has gone forward in the data. -/
structure Kept (before after : Cursor) : Prop where
  data : after.data = before.data
  order : after.order = before.order
  forward : before.position ≤ after.position
  inside : after.position ≤ after.data.length

end Cursor

namespace Decoder

variable {α β : Type} {d : Decoder α}

/-- Whatever the bytes are, the reading ends with them and without addressing a range that does
not exist. -/
def Steady (d : Decoder α) : Prop :=
  ∀ order, Reads order d fun _ _ => True

/-- What stops behind bytes that it has gone over never leaves the data. -/
theorem steady_of_reads {R : ByteOrder → Bytes → α → Prop} (h : ∀ order, Reads order d (R order)) :
    d.Steady :=
  fun order => (h order).mono fun _ _ _ => trivial

theorem steady_pure (a : α) : Steady (pure a) :=
  steady_of_reads fun order => reads_pure order a

/-- Two steady readings are steady one behind the other, since the first leaves the cursor where the
second may begin. -/
theorem Steady.bind {f : α → Decoder β} (h : d.Steady) (h' : ∀ a, (f a).Steady) :
    Steady (d >>= f) :=
  fun order => ((h order).bind fun a => h' a order).mono fun _ _ _ => trivial

/-- Nor does a byte order matter for where the cursor goes. -/
theorem Steady.withOrder (h : d.Steady) (order : ByteOrder) : (Decoder.withOrder order d).Steady :=
  fun _ => h order

/-- A list of items that are read steadily is read steadily, however many it says there are. -/
theorem Steady.vector (h : d.Steady) : (Decoder.vector d).Steady :=
  steady_of_reads fun order => reads_vector (h order)

/-- Nor does it matter which of two steady readings is chosen. -/
theorem Steady.ite {p : Prop} [Decidable p] {d' : Decoder α} (h : d.Steady) (h' : d'.Steady) :
    Steady (if p then d else d') := by
  split
  · exact h
  · exact h'

/-- Of two decoders one is chosen, and what comes behind does not depend on which. -/
theorem Steady.bind_ite {p : Prop} [Decidable p] {d' : Decoder α} {f : α → Decoder β}
    (h : d.Steady) (h' : d'.Steady) (hf : ∀ a, (f a).Steady) :
    Steady (if p then d >>= f else d' >>= f) :=
  (h.bind hf).ite (h'.bind hf)

theorem steady_atEnd : atEnd.Steady :=
  fun _ _ input => .ok (.refl input) trivial

/-- Where the cursor of a store lies within its data, it stays there, whatever the answer is.  The
answer is never that a range does not exist. -/
def Careful (d : Decoder α) : Prop :=
  ∀ c : Cursor, c.position ≤ c.data.length →
    c.Kept (c.read d).2 ∧ (c.read d).1 ≠ .error .outOfBounds

/-- **What is steady keeps the cursor of a store within its data**, wherever it stands there. -/
theorem Steady.careful (h : d.Steady) : d.Careful := by
  intro c hinside
  obtain ⟨bs, rest, hahead, hafter, -, hfault⟩ := Cursor.read_steps (h c.order)
  have hlength := congrArg List.length hahead
  rw [List.length_drop, List.length_append] at hlength
  refine ⟨?_, fun hpanic => Nat.not_lt.mpr hinside (hfault hpanic)⟩
  rw [hafter]
  exact ⟨rfl, rfl, Nat.le_add_right _ _, show c.position + bs.length ≤ c.data.length by omega⟩

end Decoder

end LightPeer.Wire
