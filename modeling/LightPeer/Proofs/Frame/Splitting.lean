import LightPeer.Frame.Received
import LightPeer.Proofs.Frame.Stream
import LightPeer.Proofs.Message.Commands
import LightPeer.Proofs.Record.Fixed
import LightPeer.Proofs.Session.Watching
import LightPeer.Proofs.Wire.Forms
import LightPeer.Proofs.Wire.Reading

/-!
# What a peer makes of a row of messages

The other side of a link cuts the bytes that it gets into frames by the lengths in their headers.
Of a row of messages it gets every one back, under its own name, with its payload, and intact,
and nothing is left over.

A payload must fit into a frame, and those of answers do: they have a fixed size, or a filter is
limited, or a request is no longer than the announcement that it answers.

* `received_row` — a row of messages as it arrives;
* `Message.Fits.wanted` — a request is no longer than the announcement;
* `fits_of_mem_drain` — an announcement has come in a frame that was accepted.
-/

namespace LightPeer

open Wire Connection

variable {magic : Bytes} {m : Outgoing} {entries : List Inventory}

/-- Every command has a name that comes back from its field. -/
theorem Outgoing.fieldCommand_command (m : Outgoing) :
    Frame.fieldCommand m.command = m.command := by
  refine Frame.fieldCommand_eq ?_ ?_ <;> cases m <;> simp only [command] <;> decide

/-- A message as it arrives when nothing has happened to it. -/
def Outgoing.arrived (m : Outgoing) : Frame.Received := ⟨m.command, m.payload, true⟩

/-- The payload of a message fits into a frame. -/
def Outgoing.Fits (m : Outgoing) : Prop := m.payload.length ≤ Frame.maxPayload

namespace Frame

/-- The frames of a row of messages. -/
def row (magic : Bytes) (ms : List Outgoing) : Bytes :=
  ms.flatMap fun m => encode magic m.command m.payload

/-- The frames of two rows of messages stand one behind the other. -/
theorem row_append (magic : Bytes) (ms ms' : List Outgoing) :
    row magic (ms ++ ms') = row magic ms ++ row magic ms' :=
  List.flatMap_append

theorem row_singleton (magic : Bytes) (m : Outgoing) :
    row magic [m] = encode magic m.command m.payload :=
  List.flatMap_singleton ..

/-- **A frame that was written arrives**, and the bytes behind it are cut as they would be without
it. -/
theorem received_encode (command : String) {payload : Bytes} (hmagic : magic.length = 4)
    (hsize : payload.length ≤ maxPayload) (more : Bytes) :
    received magic (encode magic command payload ++ more) =
      (⟨fieldCommand command, payload, true⟩ :: (received magic more).1,
        (received magic more).2) := by
  have hbegins := begins_encode command hmagic hsize more
  rw [received, dif_pos hbegins.whole]
  simp only [hbegins.magic, hbegins.header, hbegins.body, hbegins.complete, if_true,
    List.take_left, List.drop_left, decide_true, Bool.and_self]

/-- **A row of messages arrives whole**, each under its name, and nothing is left over. -/
theorem received_row (hmagic : magic.length = 4) {ms : List Outgoing} (hfits : ∀ m ∈ ms, m.Fits) :
    received magic (row magic ms) = (ms.map Outgoing.arrived, []) := by
  induction ms with
  | nil =>
    rw [received]
    rfl
  | cons m ms ih =>
    have hrest := ih fun m' hm' => hfits m' (List.mem_cons_of_mem _ hm')
    have hrow : row magic (m :: ms) = encode magic m.command m.payload ++ row magic ms :=
      List.flatMap_cons ..
    rw [hrow, received_encode m.command hmagic (hfits m List.mem_cons_self), hrest,
      m.fieldCommand_command]
    rfl

end Frame

/-- No count takes more than nine bytes. -/
theorem size_le (n : UInt64) : CompactSize.size n ≤ 9 := by
  unfold CompactSize.size
  grind

/-- A filter always fits into a frame, since its size is limited by the protocol and the limit of a
frame is far above that. -/
theorem Outgoing.fits_filterMessage (watched : List Watched) (rate : Rate) (tweak : UInt32)
    (update : FilterUpdate) : (filterMessage watched rate tweak update).Fits := by
  have hfilter : (filterFor watched rate tweak).bytes.length ≤ 36000 := by
    rw [BloomFilter.bytes, Array.length_toList]
    exact (filterFor watched rate tweak).size_le
  have hcount := size_le (UInt64.ofNat (filterFor watched rate tweak).bytes.length)
  have hsize : (filterMessage watched rate tweak update).payload.length =
      CompactSize.size (UInt64.ofNat (filterFor watched rate tweak).bytes.length) +
        (filterFor watched rate tweak).bytes.length + 9 := by
    simp only [filterMessage, payload, pieces, FilterLoad.pieces, FilterLoad.ofFilter,
      List.flatten_append, Decoder.flatten_varBytesPieces, List.length_append,
      CompactSize.length_encode, List.flatten_cons, List.flatten_nil, Bytes.length_ofNat,
      List.length_cons, List.length_nil]
  have hmax : Frame.maxPayload = 33554432 := rfl
  rw [Fits, hsize]
  omega

/-- The length of a request: a count, and the same number of bytes for every entry. -/
theorem Outgoing.length_payload_getData (entries : List Inventory) :
    (getData entries).payload.length =
      CompactSize.size (UInt64.ofNat entries.length) + 36 * entries.length := by
  have hentries (items : List Inventory) :
      (items.map fun i => i.pieces.flatten).flatten.length = 36 * items.length := by
    induction items with
    | nil => rfl
    | cons i items ih =>
      rw [List.map_cons, List.flatten_cons, List.length_append, ih, Inventory.flatten_pieces,
        List.length_append, Bytes.length_ofNat, i.hash.length_bytes, List.length_cons]
      omega
  rw [payload, pieces, Decoder.flatten_vectorPieces, List.length_append, hentries,
    CompactSize.length_encode]

namespace Message

/-- An announcement is no longer than what a frame holds. -/
def Fits : Message → Prop
  | .inv entries => entries.length < 2 ^ 64 ∧ (Outgoing.getData entries).Fits
  | _ => True

end Message

/-- A greater number has a shortest form that is no shorter. -/
theorem size_mono {n n' : Nat} (hle : n ≤ n') (hlt : n' < 2 ^ 64) :
    CompactSize.size (UInt64.ofNat n) ≤ CompactSize.size (UInt64.ofNat n') := by
  rw [CompactSize.size_ofNat (Nat.lt_of_le_of_lt hle hlt), CompactSize.size_ofNat hlt]
  grind

/-- A request for part of what was announced is no longer than the announcement. -/
theorem Message.Fits.wanted (h : (Message.inv entries).Fits) (filtered : Bool) :
    (Outgoing.getData (wanted filtered entries)).Fits := by
  have hcount : (Connection.wanted filtered entries).length ≤ entries.length :=
    List.length_filterMap_le ..
  have hsize := size_mono hcount h.1
  have hfits := h.2
  rw [Outgoing.Fits, Outgoing.length_payload_getData] at hfits ⊢
  omega

/-- Entries are read from bytes that are no shorter than the same entries written again. -/
theorem length_payload_le_of_decode {payload : Bytes}
    (h : Message.inventoryDecoder.decode payload = .ok entries) :
    entries.length < 2 ^ 64 ∧ (Outgoing.getData entries).payload.length ≤ payload.length := by
  obtain ⟨_, rest, rfl, count, slices, rfl, hcount, hslices⟩ :=
    (Decoder.reads_vector (Inventory.reads_pieces .little)).exists_of_decode h
  have hslices : slices = entries.map fun i => i.pieces.flatten := by
    rw [← List.forall₂_eq_eq_eq, List.forall₂_map_right_iff]
    exact hslices
  have hshortest := hcount.length_encode_le
  refine ⟨hcount.lt, ?_⟩
  rw [Outgoing.payload, Outgoing.pieces, Decoder.flatten_vectorPieces, List.length_append,
    ← hslices, List.length_append, List.length_append]
  omega

namespace Message

/-- An announcement is read from a payload that is no shorter. -/
theorem fits_of_decode {command : String} {payload : Bytes} {m : Message}
    (h : decode command payload = .ok (some m)) (hsize : payload.length ≤ Frame.maxPayload) :
    m.Fits := by
  -- Only an announcement has a size that matters.
  cases decodes_of_decode h with
  | inv hentries =>
    obtain ⟨hcount, hlength⟩ := length_payload_le_of_decode hentries
    exact ⟨hcount, Nat.le_trans hlength hsize⟩
  | version => trivial
  | verack => trivial
  | ping => trivial
  | tx => trivial
  | block => trivial
  | merkleBlock => trivial

end Message

namespace Frame

variable {stream rest : Bytes} {m' : Message}

/-- A payload that is accepted is no longer than it may be. -/
theorem length_payload_le {command : String} {payload : Bytes} {shorter}
    (h : front magic stream = .frame command payload rest shorter) :
    payload.length ≤ maxPayload := by
  unfold front at h
  split at h
  · dsimp only at h
    split_ifs at h with hmagic hsize hwhole hsum
    cases h
    exact Nat.le_trans (List.length_take_le _ _) (Nat.le_of_not_lt hsize)
  · cases h

/-- An announcement that was taken from a stream came in a frame, and so it is no longer than what a
frame holds. -/
theorem fits_of_next (h : next magic stream = .message m' rest) : m'.Fits := by
  fun_induction next magic stream with
  | case1 stream => cases h
  | case2 stream => cases h
  | case3 stream command payload rest' shorter hfront m' hm =>
    cases h
    exact Message.fits_of_decode hm (length_payload_le hfront)
  | case4 stream command payload rest' shorter _ _ ih => exact ih h
  | case5 stream => cases h

/-- **Announcements come in frames**, and so they are not long. -/
theorem fits_of_mem_drain (h : m' ∈ (drain magic stream).messages) : m'.Fits := by
  fun_induction drain magic stream with
  | case1 stream rest htaken => cases h
  | case2 stream error rest htaken => cases h
  | case3 stream m rest htaken more ih =>
    rcases List.mem_cons.mp h with rfl | hmore
    · exact fits_of_next htaken
    · exact ih hmore

end Frame

end LightPeer
