import LightPeer.Proofs.Frame.Cuts

/-!
# Headers and what stands behind them

The fields of a header have fixed widths, so a stream that is long enough and begins with the
bytes of the network is a header and what stands behind it, and the fields that are read are those
that stand there.  What is found at the front of the stream is settled by the length that the
header declares, and the checksum.

* `Heading.ofBytes_bytes` — the fields are read back;
* `Heading.front_eq` — what is found;
* `exists_heading` — a stream that begins with the bytes of the network has a header.
-/

namespace LightPeer.Frame

/-- A header as it stands in a stream behind the bytes of the network. -/
structure Heading where
  field : Bytes
  size : Bytes
  sum : Bytes
  length_field : field.length = commandSize
  length_size : size.length = 4
  length_sum : sum.length = 4

namespace Heading

/-- The name of the command. -/
def command (h : Heading) : String := Utf8.decodeLossy (h.field.takeWhile (· ≠ 0))

/-- The length that is declared for the payload. -/
def length (h : Heading) : Nat := Bytes.toNat .little h.size

/-- The bytes of the header. -/
def bytes (magic : Bytes) (h : Heading) : Bytes := magic ++ h.field ++ h.size ++ h.sum

variable {magic : Bytes} (hmagic : magic.length = 4) (h : Heading)

/-- The first four bytes of a frame are those of the network. -/
theorem take_bytes (more : Bytes) (hmagic : magic.length = 4) :
    (h.bytes magic ++ more).take 4 = magic := by
  rw [bytes, List.append_assoc, List.append_assoc, List.append_assoc]
  exact List.take_left' hmagic

include hmagic

/-- A header has the length that is looked for in front of every payload. -/
theorem length_bytes : (h.bytes magic).length = headerSize := by
  simp only [bytes, List.length_append, hmagic, h.length_field, h.length_size, h.length_sum]
  rfl

/-- The fields are read back. -/
theorem ofBytes_bytes : Header.ofBytes (h.bytes magic) = ⟨h.command, h.length, h.sum⟩ := by
  have hfield : ((h.bytes magic).drop 4).take commandSize = h.field := by
    rw [bytes, List.append_assoc, List.append_assoc, List.drop_left' hmagic,
      List.take_left' h.length_field]
  have hsize : ((h.bytes magic).drop 16).take 4 = h.size := by
    rw [bytes, List.append_assoc,
      List.drop_left' (by rw [List.length_append, hmagic, h.length_field]; rfl),
      List.take_left' h.length_size]
  have hsum : ((h.bytes magic).drop 20).take 4 = h.sum := by
    rw [bytes, List.drop_left' (by
        rw [List.length_append, List.length_append, hmagic, h.length_field, h.length_size]; rfl),
      List.take_of_length_le (Nat.le_of_eq h.length_sum)]
  rw [Header.ofBytes, hfield, hsize, hsum]
  rfl

/-- What is behind the payload is shorter than the stream. -/
theorem shorter (body : Bytes) (n : Nat) :
    (body.drop n).length < (h.bytes magic ++ body).length := by
  have hlength := h.length_bytes hmagic
  have hpositive : 0 < headerSize := by decide
  rw [List.length_append, List.length_drop]
  omega

/-- **What is found behind a header with the right bytes of the network.** -/
theorem front_eq (body : Bytes) :
    front magic (h.bytes magic ++ body) =
      if maxPayload < h.length then
        .fault (.payloadTooLarge h.command h.length) (h.bytes magic ++ body)
      else if Bytes.hasAtLeast h.length body then
        if checksum (body.take h.length) = h.sum then
          .frame h.command (body.take h.length) (body.drop h.length)
            (h.shorter hmagic body h.length)
        else .fault (.checksumMismatch h.command) (body.drop h.length)
      else .incomplete := by
  have hlength := h.length_bytes hmagic
  have hwhole : Bytes.hasAtLeast headerSize (h.bytes magic ++ body) := by
    rw [Bytes.hasAtLeast_iff, List.length_append]
    omega
  rw [front, dif_pos hwhole]
  simp only [h.take_bytes body hmagic, List.take_left' hlength, List.drop_left' hlength,
    h.ofBytes_bytes hmagic, ne_eq, not_true_eq_false, if_false]

end Heading

/-- A stream that is long enough for a header and begins with the bytes of the network has one. -/
theorem exists_heading {magic stream : Bytes} (hsize : headerSize ≤ stream.length)
    (hmagic : stream.take 4 = magic) :
    ∃ (h : Heading) (body : Bytes), stream = h.bytes magic ++ body := by
  have hlength : 24 ≤ stream.length := hsize
  refine ⟨⟨(stream.drop 4).take 12, (stream.drop 16).take 4, (stream.drop 20).take 4, ?_, ?_, ?_⟩,
    stream.drop 24, ?_⟩
  · rw [List.length_take, List.length_drop, commandSize]
    omega
  · rw [List.length_take, List.length_drop]
    omega
  · rw [List.length_take, List.length_drop]
    omega
  · have hcut (n k : Nat) : (stream.drop n).take k ++ stream.drop (n + k) = stream.drop n := by
      rw [← List.drop_drop, List.take_append_drop]
    have hfront : stream.take 4 ++ stream.drop 4 = stream := List.take_append_drop ..
    rw [Heading.bytes, List.append_assoc, hcut 20 4, List.append_assoc, hcut 16 4,
      List.append_assoc, hcut 4 12, ← hmagic, hfront]

end LightPeer.Frame
