import LightPeer.Proofs.Record.Fixed
import LightPeer.Proofs.Wire.Forms

/-!
# How a transaction is spelled

A transaction is a row of fields, in which scripts and lists stand behind their counts.  The
fields leave nothing open but the forms of the counts.  So a transaction and these forms
determine the bytes, and a transaction is read from no others.

* `TxBody.parses_spelled` — a transaction is read from each of its spellings;
* `TxBody.reads_spelled` — and from nothing else;
* `TxBody.rewrites_spelled` — written again it is never longer, and it is the same just if every
  count was in its shortest form;
* `Tx.parses_encode` — so a transaction that was written is read, and has the same name.
-/

namespace LightPeer

open Wire Wire.Decoder
open Wire.CompactSize (Form Shortest)

/-- A list behind the form `count` of its length; the count in every item takes a form as well. -/
def listSpelled {α : Type} (spelled : Bytes → α → Bytes) (count : Bytes) (counts : List Bytes)
    (items : List α) : Bytes :=
  count ++ (List.zipWith spelled counts items).flatten

section
variable {α : Type} {order : ByteOrder} {d : Decoder α} {spelled : Bytes → α → Bytes}
  {size : α → Nat} {count : Bytes} {counts : List Bytes} {items : List α}

/-- A list is read from each of its spellings, if its items are read from each of theirs. -/
theorem parses_listSpelled
    (hitem : ∀ form a, Form form (size a) → Parses order d (spelled form a) a)
    (hsome : ∀ form a, spelled form a ≠ []) (hcount : Form count items.length)
    (hcounts : List.Forall₂ (fun form a => Form form (size a)) counts items) :
    Parses order (vector d) (listSpelled spelled count counts items) items := by
  refine parses_slices order hcount ?_ ?_
  · clear hcount
    induction hcounts with
    | nil => exact .nil
    | cons hform _ ih => exact .cons (hitem _ _ hform) ih
  · clear hcount
    induction hcounts with
    | nil => nofun
    | @cons form a _ _ _ _ ih => exact List.forall_mem_cons.mpr ⟨hsome form a, ih⟩

/-- Slices that spell items give a list of the forms that the counts in them have. -/
theorem exists_counts {slices : List Bytes}
    (h : List.Forall₂ (fun bs a => ∃ form, Form form (size a) ∧ bs = spelled form a) slices items) :
    ∃ counts, List.Forall₂ (fun form a => Form form (size a)) counts items ∧
      slices = List.zipWith spelled counts items := by
  induction h with
  | nil => exact ⟨[], .nil, rfl⟩
  | cons hfirst _ ih =>
    obtain ⟨form, hform, rfl⟩ := hfirst
    obtain ⟨counts, hcounts, rfl⟩ := ih
    exact ⟨form :: counts, .cons hform hcounts, rfl⟩

/-- A list is read from its spellings only, if its items are. -/
theorem reads_listSpelled
    (hitem : Reads order d fun bs a => ∃ form, Form form (size a) ∧ bs = spelled form a) :
    Reads order (vector d) fun bs items => ∃ count counts, Form count items.length ∧
      List.Forall₂ (fun form a => Form form (size a)) counts items ∧
      bs = listSpelled spelled count counts items :=
  (reads_vector hitem).mono fun bs items => by
    rintro ⟨count, slices, rfl, hcount, hslices⟩
    obtain ⟨counts, hcounts, rfl⟩ := exists_counts hslices
    exact ⟨count, counts, hcount, hcounts, rfl⟩

/-- A list that is written again is never longer, and it is as it was exactly if every count in it
was as short as can be. -/
theorem rewrites_listSpelled {pieces : α → List Bytes}
    (hitem : ∀ form a, Form form (size a) →
      Rewrites (spelled form a) (pieces a).flatten (Shortest form (size a)))
    (hcount : Form count items.length)
    (hcounts : List.Forall₂ (fun form a => Form form (size a)) counts items) :
    Rewrites (listSpelled spelled count counts items) (vectorPieces pieces items).flatten
      (Shortest count items.length ∧
        List.Forall₂ (fun form a => Shortest form (size a)) counts items) := by
  rw [flatten_vectorPieces]
  exact (Rewrites.count hcount).append (.flatten (hcounts.imp hitem))

end

namespace TxIn

variable {order : ByteOrder} {count : Bytes} {i : TxIn}

/-- The fields of an input, with the length of its script in the form `count`. -/
def spelled (order : ByteOrder) (count : Bytes) (i : TxIn) : Bytes :=
  (i.previous.pieces order).flatten ++ (count ++ i.script ++
    Bytes.ofNat order 4 i.sequence.toNat)

/-- An input is written with the length of its script in the shortest form. -/
theorem flatten_pieces (order : ByteOrder) (i : TxIn) :
    (i.pieces order).flatten =
      i.spelled order (CompactSize.encode (UInt64.ofNat i.script.length)) := by
  rw [pieces, List.flatten_append, List.flatten_append, flatten_varBytesPieces,
    List.flatten_singleton, List.append_assoc]
  rfl

/-- An input is read from each of its spellings, whatever form the length of its script is written
in. -/
theorem parses_spelled (h : Form count i.script.length) :
    Parses order decoder (i.spelled order count) i :=
  (OutPoint.parses_pieces order i.previous).bind <| (parses_counted order h).bind <|
    (parses_uint32 order i.sequence).map (TxIn.mk i.previous i.script)

/-- And from no other bytes, so that the bytes of an input differ in that form alone. -/
theorem reads_spelled (order : ByteOrder) :
    Reads order decoder fun bs i =>
      ∃ count, Form count i.script.length ∧ bs = i.spelled order count :=
  ((OutPoint.reads_pieces order).bind fun previous => (reads_varBytes order).bind fun script =>
    (reads_uint32 order).map (TxIn.mk previous script)).mono fun bs i => by
    rintro ⟨previous, _, _, rfl, rfl, script, _, _, rfl, ⟨count, rfl, hcount⟩, sequence, rfl, rfl⟩
    exact ⟨count, hcount, rfl⟩

/-- No input is without bytes, and so a list of inputs is no longer than its bytes. -/
theorem spelled_ne_nil (order : ByteOrder) (count : Bytes) (i : TxIn) :
    i.spelled order count ≠ [] := by
  intro h
  have hlength := congrArg List.length h
  simp [spelled] at hlength

/-- An input that is written again has the one count in it in its shortest form. -/
theorem rewrites_spelled (order : ByteOrder) (h : Form count i.script.length) :
    Rewrites (i.spelled order count) (i.pieces order).flatten (Shortest count i.script.length) := by
  rw [flatten_pieces]
  refine ((Rewrites.refl _).append
    (((Rewrites.count h).append (.refl _)).append (.refl _))).congr ?_
  rw [and_true, and_true, true_and]

end TxIn

namespace TxOut

variable {order : ByteOrder} {count : Bytes} {o : TxOut}

/-- The fields of an output, with the length of its script in the form `count`. -/
def spelled (order : ByteOrder) (count : Bytes) (o : TxOut) : Bytes :=
  int64Bytes order o.value ++ (count ++ o.script)

/-- An output is written with the length of its script in the shortest form. -/
theorem flatten_pieces (order : ByteOrder) (o : TxOut) :
    (o.pieces order).flatten =
      o.spelled order (CompactSize.encode (UInt64.ofNat o.script.length)) := by
  rw [pieces, List.flatten_cons, flatten_varBytesPieces]
  rfl

/-- An output is read from each of its spellings, in the same way. -/
theorem parses_spelled (h : Form count o.script.length) :
    Parses order decoder (o.spelled order count) o :=
  (parses_int64 order o.value).bind <| (parses_counted order h).map (TxOut.mk o.value)

/-- And from no other bytes. -/
theorem reads_spelled (order : ByteOrder) :
    Reads order decoder fun bs o =>
      ∃ count, Form count o.script.length ∧ bs = o.spelled order count :=
  ((reads_int64 order).bind fun value =>
    (reads_varBytes order).map (TxOut.mk value)).mono fun bs o => by
    rintro ⟨value, _, _, rfl, rfl, script, ⟨count, rfl, hcount⟩, rfl⟩
    exact ⟨count, hcount, rfl⟩

/-- No output is without bytes, and so the count of outputs is bounded by them. -/
theorem spelled_ne_nil (order : ByteOrder) (count : Bytes) (o : TxOut) :
    o.spelled order count ≠ [] := by
  intro h
  have hlength := congrArg List.length h
  simp [spelled, int64Bytes] at hlength

/-- An output that is written again has the one count in it in its shortest form. -/
theorem rewrites_spelled (order : ByteOrder) (h : Form count o.script.length) :
    Rewrites (o.spelled order count) (o.pieces order).flatten (Shortest count o.script.length) := by
  rw [flatten_pieces]
  refine ((Rewrites.refl _).append ((Rewrites.count h).append (.refl _))).congr ?_
  rw [and_true, true_and]

end TxOut

/-- The counts of a transaction as they stand in its bytes. -/
structure TxCounts where
  inputs : Bytes
  /-- The length of the script of every input. -/
  inputScripts : List Bytes
  outputs : Bytes
  /-- The length of the script of every output. -/
  outputScripts : List Bytes

/-- Every count of a transaction is related to what it counts. -/
structure TxCounts.All (P : Bytes → Nat → Prop) (c : TxCounts) (t : TxBody) : Prop where
  inputs : P c.inputs t.inputs.length
  inputScripts : List.Forall₂ (fun count i => P count i.script.length) c.inputScripts t.inputs
  outputs : P c.outputs t.outputs.length
  outputScripts : List.Forall₂ (fun count o => P count o.script.length) c.outputScripts t.outputs

namespace TxBody

variable {t : TxBody} {c : TxCounts}

/-- The fields of a transaction with its counts in these forms. -/
def spelled (t : TxBody) (c : TxCounts) : Bytes :=
  int32Bytes .little t.version ++
    (listSpelled (TxIn.spelled .little) c.inputs c.inputScripts t.inputs ++
      (listSpelled (TxOut.spelled .little) c.outputs c.outputScripts t.outputs ++
        Bytes.ofNat .little 4 t.lockTime.toNat))

/-- The fields of a transaction stand one behind the other. -/
theorem encode_eq (t : TxBody) :
    t.encode = int32Bytes .little t.version ++
      ((vectorPieces (TxIn.pieces .little) t.inputs).flatten ++
        ((vectorPieces (TxOut.pieces .little) t.outputs).flatten ++
          Bytes.ofNat .little 4 t.lockTime.toNat)) := by
  rw [encode, pieces, List.flatten_cons, List.flatten_append, List.flatten_append,
    List.flatten_singleton, List.append_assoc]

/-- **A transaction is read from each of its spellings**, in which every count may stand in any of
its forms. -/
theorem parses_spelled (order : ByteOrder) (h : c.All Form t) :
    Parses order decoder (t.spelled c) t :=
  Parses.withOrder <| (parses_int32 .little t.version).bind <|
    (parses_listSpelled (fun _ _ => TxIn.parses_spelled) (TxIn.spelled_ne_nil .little) h.inputs
      h.inputScripts).bind <|
    (parses_listSpelled (fun _ _ => TxOut.parses_spelled) (TxOut.spelled_ne_nil .little) h.outputs
      h.outputScripts).bind <|
    (parses_uint32 .little t.lockTime).map (TxBody.mk t.version t.inputs t.outputs)

/-- **A transaction is read from its spellings only.**  What is left open by a transaction that was
read are the forms of its counts. -/
theorem reads_spelled (order : ByteOrder) :
    Reads order decoder fun bs t => ∃ c : TxCounts, c.All Form t ∧ bs = t.spelled c :=
  Reads.withOrder <| ((reads_int32 .little).bind fun version =>
    (reads_listSpelled (TxIn.reads_spelled .little)).bind fun inputs =>
    (reads_listSpelled (TxOut.reads_spelled .little)).bind fun outputs =>
    (reads_uint32 .little).map (TxBody.mk version inputs outputs)).mono fun bs t => by
    rintro ⟨version, _, _, rfl, rfl, inputs, _, _, rfl, ⟨count, counts, hcount, hcounts, rfl⟩,
      outputs, _, _, rfl, ⟨count', counts', hcount', hcounts', rfl⟩, lockTime, rfl, rfl⟩
    exact ⟨⟨count, counts, count', counts'⟩, ⟨hcount, hcounts, hcount', hcounts'⟩, rfl⟩

/-- **Written again, a transaction is never longer than it was, and it is the same just if every
count was in its shortest form.** -/
theorem rewrites_spelled (h : c.All Form t) :
    Rewrites (t.spelled c) t.encode (c.All Shortest t) := by
  rw [encode_eq]
  refine ((Rewrites.refl _).append <|
    (rewrites_listSpelled (fun _ _ => TxIn.rewrites_spelled .little) h.inputs
      h.inputScripts).append <|
    (rewrites_listSpelled (fun _ _ => TxOut.rewrites_spelled .little) h.outputs
      h.outputScripts).append (.refl _)).congr ?_
  constructor
  · rintro ⟨-, ⟨hinputs, hscripts⟩, ⟨houtputs, hscripts'⟩, -⟩
    exact ⟨hinputs, hscripts, houtputs, hscripts'⟩
  · rintro ⟨hinputs, hscripts, houtputs, hscripts'⟩
    exact ⟨trivial, ⟨hinputs, hscripts⟩, ⟨houtputs, hscripts'⟩, trivial⟩

/-- Whatever is counted in a transaction is counted in 64 bits. -/
structure Fits (t : TxBody) : Prop where
  inputs : t.inputs.length < 2 ^ 64
  inputScripts : ∀ i ∈ t.inputs, i.script.length < 2 ^ 64
  outputs : t.outputs.length < 2 ^ 64
  outputScripts : ∀ o ∈ t.outputs, o.script.length < 2 ^ 64

/-- The counts of a transaction as they are written. -/
def counts (t : TxBody) : TxCounts where
  inputs := CompactSize.encode (UInt64.ofNat t.inputs.length)
  inputScripts := t.inputs.map fun i => CompactSize.encode (UInt64.ofNat i.script.length)
  outputs := CompactSize.encode (UInt64.ofNat t.outputs.length)
  outputScripts := t.outputs.map fun o => CompactSize.encode (UInt64.ofNat o.script.length)

/-- The counts of a transaction that can be counted are forms, and they are the shortest ones. -/
theorem form_counts (h : t.Fits) : t.counts.All Form t where
  inputs := CompactSize.form_encode_ofNat h.inputs
  inputScripts := List.forall₂_map_left_iff.mpr <| List.forall₂_same.mpr fun i hi =>
    CompactSize.form_encode_ofNat (h.inputScripts i hi)
  outputs := CompactSize.form_encode_ofNat h.outputs
  outputScripts := List.forall₂_map_left_iff.mpr <| List.forall₂_same.mpr fun o ho =>
    CompactSize.form_encode_ofNat (h.outputScripts o ho)

/-- What is written is one of the spellings, namely that in which all counts are as short as can
be. -/
theorem spelled_counts (t : TxBody) : t.spelled t.counts = t.encode := by
  rw [encode_eq, flatten_vectorPieces, flatten_vectorPieces]
  simp only [spelled, counts, listSpelled, List.zipWith_map_left, List.zipWith_self,
    ← TxIn.flatten_pieces, ← TxOut.flatten_pieces]

/-- A transaction that was written is read. -/
theorem parses_encode (order : ByteOrder) (h : t.Fits) : Parses order decoder t.encode t := by
  rw [← spelled_counts]
  exact parses_spelled order (form_counts h)

/-- No transaction is without bytes, and so there is always a slice that its hash is taken of. -/
theorem encode_ne_nil (t : TxBody) : t.encode ≠ [] := by
  intro h
  have hlength := congrArg List.length h
  simp [encode_eq, int32Bytes] at hlength

end TxBody

namespace Tx

/-- The name of a transaction is that of the bytes it was read from. -/
theorem parses_of_body {bs : Bytes} {t : TxBody} (order : ByteOrder)
    (h : Parses order TxBody.decoder bs t) : Parses order decoder bs ⟨t, Hash256.digest bs⟩ :=
  h.withConsumed.bind_nil (parses_pure order _)

/-- **A transaction that was written is read, and has the same name.** -/
theorem parses_encode (order : ByteOrder) {t : TxBody} (h : t.Fits) :
    Parses order decoder t.encode (ofBody t) :=
  parses_of_body order (t.parses_encode order h)

/-- **A transaction is read from its spellings only, and it has the name of the spelling that it was
read from.** -/
theorem reads_spelled (order : ByteOrder) :
    Reads order decoder fun bs tx => tx.txid = Hash256.digest bs ∧
      ∃ c : TxCounts, c.All Form tx.toTxBody ∧ bs = tx.spelled c :=
  ((TxBody.reads_spelled order).withConsumed.map
    fun read => Tx.mk read.1 (Hash256.digest read.2)).mono fun bs tx => by
    rintro ⟨⟨t, _⟩, ⟨hspelled, rfl⟩, rfl⟩
    exact ⟨rfl, hspelled⟩

end Tx

end LightPeer
