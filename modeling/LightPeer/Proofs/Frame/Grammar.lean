import LightPeer.Proofs.Frame.Encoding
import LightPeer.Proofs.Message.Commands
import LightPeer.Proofs.Message.Safety

/-!
# The grammar of a stream

One call of the reader passes over complete frames of commands that are not known, as many as
there are, and then says what comes behind them.  There are seven things that can come there, one
for each constructor of `Settles`: two kinds of unfinished frames, four faults, and a message.  A
stream begins with exactly one of them or with a frame that is passed over, so it is cut in one
way only, and nothing but whole frames is taken out of it.

What the bytes of the network are is looked at first, then the length, and only then whether the
payload is there.  So little is kept of an unfinished frame.

* `front_envelope`, `next_of_unknown` — a complete frame is found, and may be passed over;
* `Settles.next_eq` — what is settled is the answer;
* `settles_or_exists_unknown` — the front of a stream settles the answer, or is passed over;
* `next_eq_iff_settles` — so a call consumes whole frames;
* `Heading.command_eq_iff` — which bytes are the name of a command;
* `next_follows_grammar` — the grammar.
-/

namespace LightPeer.Frame

/-- A complete frame: the payload has the length that the header declares, which is not too large,
and the checksum that the header gives. -/
structure Envelope where
  heading : Heading
  payload : Bytes
  length_payload : payload.length = heading.length
  length_le : heading.length ≤ maxPayload
  checksum_payload : checksum payload = heading.sum

namespace Envelope

/-- The bytes of the frame. -/
def bytes (magic : Bytes) (e : Envelope) : Bytes := e.heading.bytes magic ++ e.payload

/-- The name of the command. -/
def command (e : Envelope) : String := e.heading.command

end Envelope

/-- Frames one behind the other. -/
def chain (magic : Bytes) (frames : List Envelope) : Bytes :=
  (frames.map (Envelope.bytes magic)).flatten

/-- What the bytes at the front of a stream settle, if they are no complete frame of a command that
is not known. -/
inductive Settles (magic : Bytes) : Bytes → Next → Prop
  /-- Not even a header. -/
  | short {stream : Bytes} (hsize : stream.length < headerSize) :
      Settles magic stream (.incomplete stream)
  | wrongMagic {stream : Bytes} (hsize : headerSize ≤ stream.length)
      (hmagic : stream.take 4 ≠ magic) :
      Settles magic stream (.fault (.magicMismatch magic (stream.take 4)) stream)
  | oversized {h : Heading} {behind : Bytes} (hlong : maxPayload < h.length) :
      Settles magic (h.bytes magic ++ behind)
        (.fault (.payloadTooLarge h.command h.length) (h.bytes magic ++ behind))
  /-- A header, but not all of the payload. -/
  | unfinished {h : Heading} {part : Bytes} (hfits : h.length ≤ maxPayload)
      (hpart : part.length < h.length) :
      Settles magic (h.bytes magic ++ part) (.incomplete (h.bytes magic ++ part))
  | wrongChecksum {h : Heading} {payload rest : Bytes} (hfits : h.length ≤ maxPayload)
      (hlength : payload.length = h.length) (hsum : checksum payload ≠ h.sum) :
      Settles magic (h.bytes magic ++ (payload ++ rest))
        (.fault (.checksumMismatch h.command) rest)
  | malformed {e : Envelope} {cause : Wire.Error} {rest : Bytes}
      (hknown : Message.isKnown e.command)
      (hrefused : Message.decode e.command e.payload = .error cause) :
      Settles magic (e.bytes magic ++ rest) (.fault (.decode e.command cause) rest)
  | message {e : Envelope} {m : Message} {rest : Bytes} (hcommand : e.command = m.command)
      (hread : Message.decode e.command e.payload = .ok (some m)) :
      Settles magic (e.bytes magic ++ rest) (.message m rest)

variable {magic : Bytes} {stream behind rest : Bytes} {answer : Next} {e : Envelope}

section
variable (hmagic : magic.length = 4)
include hmagic

/-- What is behind a frame is shorter than the stream. -/
theorem Envelope.shorter (e : Envelope) (rest : Bytes) :
    rest.length < (e.bytes magic ++ rest).length := by
  have hheading := e.heading.length_bytes hmagic
  have hpositive : 0 < headerSize := by decide
  rw [List.length_append, bytes, List.length_append]
  omega

/-- A complete frame is found, and what is behind it is not looked at for that. -/
theorem front_envelope (e : Envelope) (rest : Bytes) :
    ∃ shorter, front magic (e.bytes magic ++ rest) =
      .frame e.command e.payload rest shorter := by
  have hwhole : Bytes.hasAtLeast e.heading.length (e.payload ++ rest) := by
    rw [Bytes.hasAtLeast_iff, List.length_append, ← e.length_payload]
    omega
  rw [Envelope.bytes, List.append_assoc, e.heading.front_eq hmagic,
    if_neg (Nat.not_lt.mpr e.length_le), if_pos hwhole]
  simp only [List.take_left' e.length_payload, List.drop_left' e.length_payload,
    e.checksum_payload, if_true]
  have hshorter := e.shorter hmagic rest
  rw [Envelope.bytes, List.append_assoc] at hshorter
  exact ⟨hshorter, rfl⟩

/-- A frame of a command that is not known is passed over. -/
theorem next_of_unknown (hunknown : Message.isKnown e.command = false) :
    next magic (e.bytes magic ++ rest) = next magic rest := by
  obtain ⟨_, hfront⟩ := front_envelope hmagic e rest
  rw [next, hfront]
  simp only [Message.decode_eq_none_iff.mpr hunknown]

/-- However many such frames there are, they are passed over. -/
theorem next_of_chain {frames : List Envelope}
    (hunknown : ∀ e ∈ frames, Message.isKnown e.command = false) :
    next magic (chain magic frames ++ behind) = next magic behind := by
  induction frames with
  | nil => rfl
  | cons e frames ih =>
    obtain ⟨hfirst, hothers⟩ := List.forall_mem_cons.mp hunknown
    have hchain : chain magic (e :: frames) = e.bytes magic ++ chain magic frames := rfl
    rw [hchain, List.append_assoc, next_of_unknown hmagic hfirst, ih hothers]

/-- What is settled is the answer. -/
theorem Settles.next_eq (h : Settles magic stream answer) : next magic stream = answer := by
  cases h with
  | short hsize =>
    have hfew : ¬ Bytes.hasAtLeast headerSize stream := by
      rw [Bytes.hasAtLeast_iff]
      omega
    rw [next, front, dif_neg hfew]
  | wrongMagic hsize hwrong =>
    rw [next, front, dif_pos (Bytes.hasAtLeast_iff.mpr hsize)]
    simp only [if_pos hwrong]
  | @oversized h behind hlong =>
    rw [next, h.front_eq hmagic, if_pos hlong]
  | @unfinished h part hfits hpart =>
    have hfew : ¬ Bytes.hasAtLeast h.length part := by
      rw [Bytes.hasAtLeast_iff]
      omega
    rw [next, h.front_eq hmagic, if_neg (Nat.not_lt.mpr hfits), if_neg hfew]
  | @wrongChecksum h payload rest hfits hlength hsum =>
    have hwhole : Bytes.hasAtLeast h.length (payload ++ rest) := by
      rw [Bytes.hasAtLeast_iff, List.length_append]
      omega
    rw [next, h.front_eq hmagic, if_neg (Nat.not_lt.mpr hfits), if_pos hwhole]
    simp only [List.take_left' hlength, List.drop_left' hlength, if_neg hsum]
  | @malformed e cause rest hknown hrefused =>
    obtain ⟨_, hfront⟩ := front_envelope hmagic e rest
    rw [next, hfront]
    simp only [hrefused]
  | @message e m rest hcommand hread =>
    obtain ⟨_, hfront⟩ := front_envelope hmagic e rest
    rw [next, hfront]
    simp only [hread]

end

/-- A complete frame is passed over, or it settles the answer. -/
theorem Envelope.settles_or_unknown (magic : Bytes) (e : Envelope) (rest : Bytes) :
    (∃ answer, Settles magic (e.bytes magic ++ rest) answer) ∨
      Message.isKnown e.command = false := by
  cases hdecode : Message.decode e.command e.payload with
  | error cause =>
    have hknown := Message.isKnown_of_decode_eq_error hdecode
    exact Or.inl ⟨_, .malformed hknown hdecode⟩
  | ok answer =>
    cases answer with
    | some m => exact Or.inl ⟨_, .message (Message.command_eq_of_decode hdecode).symm hdecode⟩
    | none => exact Or.inr (Message.decode_eq_none_iff.mp hdecode)

/-- The front of a stream settles the answer, or is a complete frame that is passed over. -/
theorem settles_or_exists_unknown (magic stream : Bytes) :
    (∃ answer, Settles magic stream answer) ∨
      ∃ e rest, Message.isKnown (Envelope.command e) = false ∧ stream = e.bytes magic ++ rest := by
  by_cases hsize : stream.length < headerSize
  · exact Or.inl ⟨_, .short hsize⟩
  by_cases hmagic : stream.take 4 = magic
  · obtain ⟨h, body, rfl⟩ := exists_heading (Nat.le_of_not_lt hsize) hmagic
    by_cases hlong : maxPayload < h.length
    · exact Or.inl ⟨_, .oversized hlong⟩
    by_cases hpart : body.length < h.length
    · exact Or.inl ⟨_, .unfinished (Nat.le_of_not_lt hlong) hpart⟩
    have hlength : (body.take h.length).length = h.length :=
      List.length_take_of_le (Nat.le_of_not_lt hpart)
    rw [← List.take_append_drop h.length body]
    by_cases hsum : checksum (body.take h.length) = h.sum
    · let e : Envelope := ⟨h, body.take h.length, hlength, Nat.le_of_not_lt hlong, hsum⟩
      rw [← List.append_assoc]
      rcases e.settles_or_unknown magic (body.drop h.length) with hsettles | hunknown
      · exact Or.inl hsettles
      · exact Or.inr ⟨e, _, hunknown, rfl⟩
    · exact Or.inl ⟨_, .wrongChecksum (Nat.le_of_not_lt hlong) hlength hsum⟩
  · exact Or.inl ⟨_, .wrongMagic (Nat.le_of_not_lt hsize) hmagic⟩

/-- Every stream is a chain of frames that are passed over and a rest that settles the answer. -/
theorem exists_chain_settles (hmagic : magic.length = 4) (stream : Bytes) :
    ∃ skipped behind answer, (∀ e ∈ skipped, Message.isKnown (Envelope.command e) = false) ∧
      stream = chain magic skipped ++ behind ∧ Settles magic behind answer := by
  rcases settles_or_exists_unknown magic stream with
    ⟨answer, hsettles⟩ | ⟨e, rest, hunknown, hstream⟩
  · exact ⟨[], stream, answer, nofun, rfl, hsettles⟩
  · have hshorter : rest.length < stream.length := hstream ▸ e.shorter hmagic rest
    obtain ⟨skipped, behind, answer, hskipped, hrest, hsettles⟩ :=
      exists_chain_settles hmagic rest
    refine ⟨e :: skipped, behind, answer, List.forall_mem_cons.mpr ⟨hunknown, hskipped⟩, ?_,
      hsettles⟩
    have hchain : chain magic (e :: skipped) = e.bytes magic ++ chain magic skipped := rfl
    rw [hstream, hrest, hchain, List.append_assoc]
termination_by stream.length

/-- **A call of the reader consumes whole frames**:  those that nobody reads, and then the one that
settles the answer. -/
theorem next_eq_iff_settles (hmagic : magic.length = 4) :
    next magic stream = answer ↔
      ∃ skipped behind, (∀ e ∈ skipped, Message.isKnown (Envelope.command e) = false) ∧
        stream = chain magic skipped ++ behind ∧ Settles magic behind answer := by
  constructor
  · rintro rfl
    obtain ⟨skipped, behind, answer, hskipped, rfl, hsettles⟩ := exists_chain_settles hmagic stream
    refine ⟨skipped, behind, hskipped, rfl, ?_⟩
    rwa [next_of_chain hmagic hskipped, hsettles.next_eq hmagic]
  · rintro ⟨skipped, behind, hskipped, rfl, hsettles⟩
    rw [next_of_chain hmagic hskipped, hsettles.next_eq hmagic]

/-- Of an unfinished frame less is kept than the longest frame has. -/
theorem Settles.length_lt (hmagic : magic.length = 4)
    (h : Settles magic behind (.incomplete rest)) : rest.length < headerSize + maxPayload := by
  cases h with
  | short hsize => omega
  | @unfinished h part hfits hpart =>
    rw [List.length_append, h.length_bytes hmagic]
    omega

/-- A payload that is refused has a name, and no range outside of it was addressed. -/
theorem Settles.of_decode {command : String} {cause : Wire.Error}
    (h : Settles magic behind (.fault (.decode command cause) rest)) :
    command ≠ "" ∧ cause ≠ .outOfBounds := by
  cases h with
  | malformed hknown hrefused =>
    constructor
    · intro hempty
      rw [hempty] at hknown
      cases hknown
    · intro hpanic
      rw [hpanic] at hrefused
      exact Message.decode_ne_outOfBounds _ _ hrefused

/-- A name ends at the first zero byte of its field. -/
theorem takeWhile_eq_iff {field name : Bytes} (hzero : 0 ∉ name)
    (hshort : name.length < field.length) :
    field.takeWhile (· ≠ 0) = name ↔ name ++ [0] <+: field := by
  induction field generalizing name with
  | nil => exact absurd hshort (Nat.not_lt_zero _)
  | cons b field ih =>
    cases name with
    | nil =>
      rw [List.nil_append, List.cons_prefix_cons]
      by_cases hb : b = 0
      · rw [List.takeWhile_cons_of_neg (by simp [hb])]
        exact ⟨fun _ => ⟨hb.symm, List.nil_prefix⟩, fun _ => rfl⟩
      · rw [List.takeWhile_cons_of_pos (by simp [hb])]
        exact ⟨fun h => (nomatch h), fun h => absurd h.1.symm hb⟩
    | cons c name =>
      have hc : 0 ≠ c := fun h => hzero (h ▸ List.mem_cons_self)
      have hrest := ih (fun h => hzero (List.mem_cons_of_mem c h)) (Nat.lt_of_succ_lt_succ hshort)
      rw [List.cons_append, List.cons_prefix_cons]
      by_cases hb : b = 0
      · rw [List.takeWhile_cons_of_neg (by simp [hb])]
        exact ⟨fun h => (nomatch h), fun h => absurd (h.1.trans hb).symm hc⟩
      · rw [List.takeWhile_cons_of_pos (by simp [hb]), List.cons.injEq, hrest, eq_comm]

/-- **A command is recognised by the bytes of its name and a zero byte behind them.** -/
theorem Heading.command_eq_iff (h : Heading) {name : String} (hknown : Message.isKnown name) :
    h.command = name ↔ Utf8.encode name ++ [0] <+: h.field := by
  obtain ⟨hplain, hzero, hshort⟩ := Message.spelling_of_isKnown hknown
  rw [command, Utf8.decodeLossy_eq_iff hplain]
  exact takeWhile_eq_iff hzero (by rw [h.length_field]; exact hshort)

/-- **A stream is frames that are passed over, and what comes behind them is the answer.**  This
fixes the answer, and what is left in the stream.  Less than a header and the longest payload is
kept, a fault of a payload has the name of a command, and a command is known by the bytes of its
name alone. -/
theorem next_follows_grammar (hmagic : magic.length = 4) (stream : Bytes) :
    (∀ answer, next magic stream = answer ↔
      ∃ skipped behind, (∀ e ∈ skipped, Message.isKnown (Envelope.command e) = false) ∧
        stream = chain magic skipped ++ behind ∧ Settles magic behind answer) ∧
      (∀ rest, next magic stream = .incomplete rest → rest.length < headerSize + maxPayload) ∧
      (∀ command cause rest, next magic stream = .fault (.decode command cause) rest →
        command ≠ "" ∧ cause ≠ .outOfBounds) ∧
      ∀ (h : Heading) (name : String), Message.isKnown name →
        (h.command = name ↔ Utf8.encode name ++ [0] <+: h.field) := by
  refine ⟨fun answer => next_eq_iff_settles hmagic, ?_, ?_, fun h name => h.command_eq_iff⟩
  · intro rest hnext
    obtain ⟨_, _, _, _, hsettles⟩ := (next_eq_iff_settles hmagic).mp hnext
    exact hsettles.length_lt hmagic
  · intro command cause rest hnext
    obtain ⟨_, _, _, _, hsettles⟩ := (next_eq_iff_settles hmagic).mp hnext
    exact hsettles.of_decode

/-- A frame of a command that is not known is passed over, and the one behind it is the message that
is taken. -/
theorem next_follows_grammar_mixed :
    next [1, 2, 3, 4] (encode [1, 2, 3, 4] "sendtxrcncl0" [1, 2] ++
        (encode [1, 2, 3, 4] "verack" [] ++ [9])) = .message .verack [9] ∧
      ∃ skipped e, (∀ e ∈ skipped, Message.isKnown (Envelope.command e) = false) ∧
        Envelope.command e = "verack" ∧
        encode [1, 2, 3, 4] "sendtxrcncl0" [1, 2] ++ (encode [1, 2, 3, 4] "verack" [] ++ [9]) =
          chain [1, 2, 3, 4] skipped ++ (e.bytes [1, 2, 3, 4] ++ [9]) := by
  have hverack : next [1, 2, 3, 4] (encode [1, 2, 3, 4] "verack" [] ++ [9]) =
      .message .verack [9] :=
    next_encode rfl (by decide) (by decide) [9]
  have hnext : next [1, 2, 3, 4] (encode [1, 2, 3, 4] "sendtxrcncl0" [1, 2] ++
      (encode [1, 2, 3, 4] "verack" [] ++ [9])) = .message .verack [9] := by
    obtain ⟨_, hfront⟩ := @front_encode [1, 2, 3, 4] [1, 2] "sendtxrcncl0" rfl (by decide)
      (encode [1, 2, 3, 4] "verack" [] ++ [9])
    have hunknown : Message.decode (fieldCommand "sendtxrcncl0") [1, 2] = .ok none := by decide
    rw [next, hfront]
    simp only [hunknown, hverack]
  obtain ⟨hcut, -⟩ := @next_follows_grammar [1, 2, 3, 4] rfl
    (encode [1, 2, 3, 4] "sendtxrcncl0" [1, 2] ++ (encode [1, 2, 3, 4] "verack" [] ++ [9]))
  obtain ⟨skipped, behind, hskipped, hstream, hsettles⟩ := (hcut _).mp hnext
  refine ⟨hnext, skipped, ?_⟩
  cases hsettles with
  | @message e _ _ hcommand hread => exact ⟨e, hskipped, hcommand, hstream⟩

end LightPeer.Frame
