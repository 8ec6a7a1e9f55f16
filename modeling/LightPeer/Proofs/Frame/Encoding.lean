import LightPeer.Proofs.Frame.Heading

/-!
# Reading a frame that was written

A frame that `encode` has written is found again at the front of a stream, with its payload
and whatever stands behind it.  The name of its command comes back as it stands in a field of
twelve bytes, which need not be the name that was put in.

* `front_encode` — the frame is found;
* `next_encode`, `drain_encode` — and the message in it.
-/

namespace LightPeer.Frame

open Wire

variable {magic payload : Bytes} {command : String} {m : Message}

/-- The name of a command as it is read from its field. -/
def fieldCommand (command : String) : String :=
  Utf8.decodeLossy ((fixedStringBytes commandSize command).takeWhile (· ≠ 0))

/-- A field has its width, whatever is put into it. -/
theorem length_fixedStringBytes (width : Nat) (text : String) :
    (fixedStringBytes width text).length = width := by
  have hle : ((Utf8.encode text).take width).length ≤ width := by
    rw [List.length_take]
    exact Nat.min_le_left ..
  rw [fixedStringBytes, List.length_append, Bytes.length_replicate]
  omega

/-- The header that is written in front of a payload. -/
def Heading.ofPayload (command : String) (payload : Bytes) : Heading where
  field := fixedStringBytes commandSize command
  size := Bytes.ofNat .little 4 payload.length
  sum := checksum payload
  length_field := length_fixedStringBytes ..
  length_size := Bytes.length_ofNat ..
  length_sum := length_checksum payload

/-- The bytes of a frame in front of its payload. -/
def headerBytes (magic : Bytes) (command : String) (payload : Bytes) : Bytes :=
  magic ++ fixedStringBytes commandSize command ++ Bytes.ofNat .little 4 payload.length ++
    checksum payload

/-- The bytes of a header that is written are those of a header that can be read. -/
theorem headerBytes_eq (magic : Bytes) (command : String) (payload : Bytes) :
    headerBytes magic command payload = (Heading.ofPayload command payload).bytes magic :=
  rfl

/-- The header of a frame has the same length in every network. -/
theorem length_headerBytes (command : String) (payload : Bytes) (hmagic : magic.length = 4) :
    (headerBytes magic command payload).length = headerSize :=
  (Heading.ofPayload command payload).length_bytes hmagic

/-- No frame is empty. -/
theorem encode_ne_nil {magic : Bytes} (hmagic : magic.length = 4) (command : String)
    (payload : Bytes) : encode magic command payload ≠ [] := by
  intro hnil
  have hlength := length_headerBytes command payload hmagic
  have hheader : headerBytes magic command payload = [] := (List.append_eq_nil_iff.mp hnil).1
  rw [hheader] at hlength
  cases hlength

/-- The fields of a header are read back. -/
theorem ofBytes_headerBytes (hmagic : magic.length = 4) (hsize : payload.length ≤ maxPayload) :
    Header.ofBytes (headerBytes magic command payload) =
      ⟨fieldCommand command, payload.length, checksum payload⟩ := by
  have hfits : (Heading.ofPayload command payload).length = payload.length := by
    rw [Heading.length, Heading.ofPayload, Bytes.toNat_ofNat]
    exact Nat.mod_eq_of_lt (Nat.lt_of_le_of_lt hsize (by decide))
  rw [headerBytes_eq, Heading.ofBytes_bytes hmagic, hfits]
  rfl

/-- A frame begins with the bytes of its network. -/
theorem take_headerBytes (command : String) (payload : Bytes) (hmagic : magic.length = 4)
    (more : Bytes) : (headerBytes magic command payload ++ more).take 4 = magic :=
  (Heading.ofPayload command payload).take_bytes more hmagic

/-- A stream that begins with a frame, as it is cut: a header, and a body that begins with the
payload. -/
structure Begins (magic : Bytes) (command : String) (payload more stream : Bytes) : Prop where
  whole : Bytes.hasAtLeast headerSize stream = true
  magic : stream.take 4 = magic
  header : Header.ofBytes (stream.take headerSize) =
    ⟨fieldCommand command, payload.length, checksum payload⟩
  body : stream.drop headerSize = payload ++ more
  complete : Bytes.hasAtLeast payload.length (payload ++ more) = true
  shorter : more.length < stream.length

/-- A frame that was written is cut where it was put together, whatever comes behind it. -/
theorem begins_encode (command : String) (hmagic : magic.length = 4)
    (hsize : payload.length ≤ maxPayload) (more : Bytes) :
    Begins magic command payload more (encode magic command payload ++ more) := by
  let header := headerBytes magic command payload
  have hlength : header.length = headerSize := length_headerBytes command payload hmagic
  have hstream : encode magic command payload ++ more = header ++ (payload ++ more) :=
    List.append_assoc ..
  have hpositive : 0 < headerSize := by decide
  rw [hstream]
  refine ⟨?_, take_headerBytes command payload hmagic _, ?_, List.drop_left' hlength, ?_, ?_⟩
  · rw [Bytes.hasAtLeast_iff, List.length_append]
    omega
  · rw [List.take_left' hlength]
    exact ofBytes_headerBytes hmagic hsize
  · rw [Bytes.hasAtLeast_iff, List.length_append]
    omega
  · rw [List.length_append, List.length_append, hlength]
    omega

/-- **A frame that was written is found at the front of a stream.** -/
theorem front_encode (command : String) (hmagic : magic.length = 4)
    (hsize : payload.length ≤ maxPayload) (more : Bytes) :
    ∃ shorter, front magic (encode magic command payload ++ more) =
      .frame (fieldCommand command) payload more shorter := by
  have hbegins := begins_encode command hmagic hsize more
  rw [front, dif_pos hbegins.whole]
  simp only [hbegins.magic, hbegins.header, hbegins.body, hbegins.complete, ne_eq,
    not_true_eq_false, if_false, Nat.not_lt.mpr hsize, if_true, List.take_left, List.drop_left]
  exact ⟨hbegins.shorter, trivial⟩

/-- The message of a frame is found, and the bytes behind the frame are left. -/
theorem next_encode (hmagic : magic.length = 4) (hsize : payload.length ≤ maxPayload)
    (hdecode : Message.decode (fieldCommand command) payload = .ok (some m)) (more : Bytes) :
    next magic (encode magic command payload ++ more) = .message m more := by
  obtain ⟨shorter, hfront⟩ := front_encode command hmagic hsize more
  rw [next, hfront]
  simp only [hdecode]

/-- A frame that stands alone gives its message, and nothing is left. -/
theorem drain_encode (hmagic : magic.length = 4) (hsize : payload.length ≤ maxPayload)
    (hdecode : Message.decode (fieldCommand command) payload = .ok (some m)) :
    drain magic (encode magic command payload) = ⟨[m], none, []⟩ := by
  have hnext : next magic (encode magic command payload) = .message m [] := by
    have hmore := next_encode hmagic hsize hdecode []
    rw [List.append_nil] at hmore
    exact hmore
  have hnothing : next magic [] = .incomplete [] := by
    rw [next]
    rfl
  rw [drain_of_message hnext, drain_of_incomplete hnothing]

end LightPeer.Frame
