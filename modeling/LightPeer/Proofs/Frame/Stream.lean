import Mathlib.Data.List.Forall2
import LightPeer.Proofs.Frame.Encoding
import LightPeer.Proofs.Message.Commands
import LightPeer.Proofs.Text.Utf8

/-!
# Reading a stream that was written

A writer puts frames one behind the other, of commands that are known here and of others, and may
have come to the middle of a further one.  The reader finds the messages of the known commands in
their order, and keeps the bytes of the unfinished frame.  The first payload that is no message of
its command ends this.

* `fieldCommand_eq` — a name that fits comes back from its field, also if it fills it;
* `next_of_part` — there is nothing in a part of a frame;
* `drain_message`, `drain_unknown`, `drain_malformed` — what one frame adds;
* `drain_stream` — what a row of frames and a part of a further one give.
-/

namespace LightPeer.Frame

open Wire

/-- A command and its payload, to be put into a frame. -/
structure Packet where
  command : String
  payload : Bytes

namespace Packet

/-- The frame. -/
def encode (magic : Bytes) (p : Packet) : Bytes := Frame.encode magic p.command p.payload

/-- The name of the command is no longer than its field and has no zero byte, and the payload is
no longer than it may be. -/
structure Fits (p : Packet) : Prop where
  length_command : (Utf8.encode p.command).length ≤ commandSize
  no_zero : 0 ∉ Utf8.encode p.command
  length_payload : p.payload.length ≤ maxPayload

/-- Whether the command has a reader. -/
def isKnown (p : Packet) : Bool := Message.isKnown p.command

/-- The payload is read as this message. -/
def Holds (p : Packet) (m : Message) : Prop := Message.decode p.command p.payload = .ok (some m)

/-- The payload is read, unless nobody here would read it. -/
def Legible (p : Packet) : Prop := p.isKnown → ∃ m, p.Holds m

/-- The payload of a command that is not known is not looked at. -/
theorem decode_of_unknown {p : Packet} (h : p.isKnown = false) :
    Message.decode p.command p.payload = .ok none :=
  Message.decode_eq_none_iff.mpr h

/-- A payload that is not read is one that the reader of its command refuses. -/
theorem exists_cause_of_not_legible {p : Packet} (h : ¬ p.Legible) :
    p.isKnown ∧ ∃ cause, Message.decode p.command p.payload = .error cause := by
  obtain ⟨hknown, hnone⟩ := Classical.not_imp.mp h
  refine ⟨hknown, ?_⟩
  obtain ⟨d, hd⟩ := Option.isSome_iff_exists.mp hknown
  rw [Message.decode, hd]
  dsimp only
  cases hdecode : d.decode p.payload with
  | error cause => exact ⟨cause, rfl⟩
  | ok m =>
    refine (hnone ⟨m, ?_⟩).elim
    rw [Holds, Message.decode, hd]
    simp only [hdecode]

end Packet

/-- Frames one behind the other. -/
def stream (magic : Bytes) (packets : List Packet) : Bytes :=
  (packets.map (Packet.encode magic)).flatten

variable {magic tail : Bytes} {p : Packet} {packets : List Packet}

/-- The name of a command comes back from its field. -/
theorem fieldCommand_eq {command : String} (hlength : (Utf8.encode command).length ≤ commandSize)
    (hzero : 0 ∉ Utf8.encode command) : fieldCommand command = command := by
  have hname : ∀ b ∈ Utf8.encode command, decide (b ≠ 0) = true := by
    intro b hb
    refine decide_eq_true fun hb0 => ?_
    rw [hb0] at hb
    exact hzero hb
  have hfill (count : Nat) : (Bytes.replicate count 0).takeWhile (· ≠ 0) = [] := by
    cases count with
    | zero => rfl
    | succ count => rfl
  rw [fieldCommand, fixedStringBytes, List.take_of_length_le hlength,
    List.takeWhile_append_of_pos hname, hfill, List.append_nil, Utf8.decodeLossy_encode]

/-- **There is nothing in a part of a frame** to be handled, and no fault either. -/
theorem next_of_part (hmagic : magic.length = 4) (hfits : p.Fits)
    (hpart : tail <+: p.encode magic) (hstrict : tail ≠ p.encode magic) :
    next magic tail = .incomplete tail := by
  let header := headerBytes magic p.command p.payload
  have hlength : header.length = headerSize := length_headerBytes p.command p.payload hmagic
  have hframe : p.encode magic = header ++ p.payload := rfl
  have hfront : front magic tail = .incomplete := by
    rw [front]
    split
    · next hsize =>
      rw [Bytes.hasAtLeast_iff] at hsize
      -- The header is whole, so it is the payload that is cut.
      obtain ⟨body, rfl⟩ : header <+: tail :=
        List.prefix_of_prefix_length_le ⟨p.payload, rfl⟩ hpart (by omega)
      have hbody : body.length < p.payload.length := by
        have hle := hpart.length_le
        rw [hframe, List.length_append, List.length_append] at hle
        refine Nat.lt_of_le_of_ne (by omega) fun hsame => hstrict ?_
        refine hpart.eq_of_length ?_
        rw [hframe, List.length_append, List.length_append, hsame]
      have hfirst : (header ++ body).take 4 = magic :=
        take_headerBytes p.command p.payload hmagic body
      have hheader : Header.ofBytes header =
          ⟨fieldCommand p.command, p.payload.length, checksum p.payload⟩ :=
        ofBytes_headerBytes hmagic hfits.length_payload
      have hfew : ¬ Bytes.hasAtLeast p.payload.length body := by
        rw [Bytes.hasAtLeast_iff]
        omega
      simp only [hfirst, List.take_left' hlength, List.drop_left' hlength, hheader, ne_eq,
        not_true_eq_false, if_false, Nat.not_lt.mpr hfits.length_payload, hfew, Bool.false_eq_true]
    · rfl
  rw [next, hfront]

section
variable (hmagic : magic.length = 4) (hfits : p.Fits) (more : Bytes)
include hmagic hfits

/-- A frame in front of any bytes is found as a frame, with these bytes behind it. -/
theorem front_packet : ∃ shorter, front magic (p.encode magic ++ more) =
    .frame p.command p.payload more shorter := by
  have hfront := front_encode p.command hmagic hfits.length_payload more
  rw [fieldCommand_eq hfits.length_command hfits.no_zero] at hfront
  exact hfront

/-- A message is taken, and then all that is behind it as if it stood alone. -/
theorem drain_message {m : Message} (h : p.Holds m) :
    drain magic (p.encode magic ++ more) = (drain magic more).after [m] := by
  obtain ⟨shorter, hfront⟩ := front_packet hmagic hfits more
  have hnext : next magic (p.encode magic ++ more) = .message m more := by
    rw [next, hfront]
    rw [Packet.Holds] at h
    simp only [h]
  exact drain_of_message hnext

/-- A frame of a command that is not known is passed over. -/
theorem drain_unknown (h : p.isKnown = false) :
    drain magic (p.encode magic ++ more) = drain magic more := by
  obtain ⟨shorter, hfront⟩ := front_packet hmagic hfits more
  refine drain_congr ?_
  rw [next, hfront]
  simp only [Packet.decode_of_unknown h]

/-- A payload that is refused ends the reading, and the command is named. -/
theorem drain_malformed {cause : Wire.Error}
    (h : Message.decode p.command p.payload = .error cause) :
    drain magic (p.encode magic ++ more) = ⟨[], some (.decode p.command cause), more⟩ := by
  obtain ⟨shorter, hfront⟩ := front_packet hmagic hfits more
  refine drain_of_fault ?_
  rw [next, hfront]
  simp only [h]

end

/-- Frames whose payloads are read give their messages. -/
theorem drain_held {ms : List Message} (hmagic : magic.length = 4)
    (hfits : ∀ p ∈ packets, p.Fits) (h : List.Forall₂ Packet.Holds packets ms) (more : Bytes) :
    drain magic (stream magic packets ++ more) = (drain magic more).after ms := by
  induction h with
  | nil => rfl
  | cons hfirst _ ih =>
    obtain ⟨hfit, hfits⟩ := List.forall_mem_cons.mp hfits
    rw [stream, List.map_cons, List.flatten_cons, List.append_assoc, ← stream,
      drain_message hmagic hfit _ hfirst, ih hfits, Drained.after_after]
    rfl

/-- Nothing is left of a stream that ends with a frame. -/
theorem drain_whole {ms : List Message} (hmagic : magic.length = 4)
    (hfits : ∀ p ∈ packets, p.Fits) (h : List.Forall₂ Packet.Holds packets ms) :
    drain magic (stream magic packets) = ⟨ms, none, []⟩ := by
  have hnothing : drain magic [] = ⟨[], none, []⟩ := drain_of_incomplete (by rw [next]; rfl)
  have hall := drain_held hmagic hfits h []
  rw [List.append_nil, hnothing, Drained.after, List.append_nil] at hall
  exact hall

/-- Every frame has a header and its payload. -/
theorem length_stream (hmagic : magic.length = 4) (packets : List Packet) :
    (stream magic packets).length =
      packets.foldr (fun p length => headerSize + p.payload.length + length) 0 := by
  induction packets with
  | nil => rfl
  | cons p packets ih =>
    have hframe : (p.encode magic).length = headerSize + p.payload.length := by
      have hencoded : p.encode magic = headerBytes magic p.command p.payload ++ p.payload := rfl
      rw [hencoded, List.length_append, length_headerBytes p.command p.payload hmagic]
    have hstream : stream magic (p :: packets) = p.encode magic ++ stream magic packets := rfl
    rw [hstream, List.length_append, hframe, ih, List.foldr_cons]

/-- Frames that are legible give the messages of those that are known, in their order. -/
theorem drain_legible (hmagic : magic.length = 4) (hfits : ∀ p ∈ packets, p.Fits)
    (hlegible : ∀ p ∈ packets, p.Legible) (more : Bytes) :
    ∃ ms, List.Forall₂ Packet.Holds (packets.filter Packet.isKnown) ms ∧
      drain magic (stream magic packets ++ more) = (drain magic more).after ms := by
  induction packets with
  | nil => exact ⟨[], .nil, rfl⟩
  | cons p packets ih =>
    obtain ⟨hfit, hfits⟩ := List.forall_mem_cons.mp hfits
    obtain ⟨hfirst, hlegible⟩ := List.forall_mem_cons.mp hlegible
    obtain ⟨ms, hms, hdrain⟩ := ih hfits hlegible
    rw [stream, List.map_cons, List.flatten_cons, List.append_assoc, ← stream]
    cases hknown : p.isKnown with
    | true =>
      obtain ⟨m, hm⟩ := hfirst hknown
      refine ⟨m :: ms, ?_, ?_⟩
      · rw [List.filter_cons_of_pos hknown]
        exact .cons hm hms
      · rw [drain_message hmagic hfit _ hm, hdrain, Drained.after_after]
        rfl
    | false =>
      refine ⟨ms, ?_, ?_⟩
      · rw [List.filter_cons_of_neg (Bool.eq_false_iff.mp hknown)]
        exact hms
      · rw [drain_unknown hmagic hfit _ hknown, hdrain]

/-- Where not all frames are legible, there is a first one that is not. -/
theorem exists_first_malformed (h : ¬ ∀ p ∈ packets, p.Legible) :
    ∃ before bad after cause, packets = before ++ bad :: after ∧ (∀ p ∈ before, p.Legible) ∧
      bad.isKnown ∧ Message.decode bad.command bad.payload = .error cause := by
  induction packets with
  | nil => exact (h nofun).elim
  | cons p packets ih =>
    by_cases hlegible : p.Legible
    · obtain ⟨before, bad, after, cause, rfl, hbefore, hbad⟩ :=
        ih fun hall => h (List.forall_mem_cons.mpr ⟨hlegible, hall⟩)
      exact ⟨p :: before, bad, after, cause, rfl, List.forall_mem_cons.mpr ⟨hlegible, hbefore⟩,
        hbad⟩
    · obtain ⟨hknown, cause, hcause⟩ := Packet.exists_cause_of_not_legible hlegible
      exact ⟨[], p, packets, cause, rfl, nofun, hknown, hcause⟩

/-- **A stream that was written is read.**  From frames and a part of a further one, the messages
of the commands that are known are taken in their order, and the part is left, if all of them can be
read.  Otherwise those before the first that cannot be read are taken, and the fault names its
command. -/
theorem drain_stream {last : Packet} (hmagic : magic.length = 4) (hfits : ∀ p ∈ packets, p.Fits)
    (hlast : last.Fits) (hpart : tail <+: last.encode magic)
    (hstrict : tail ≠ last.encode magic) :
    ((∀ p ∈ packets, p.Legible) →
      ∃ ms, List.Forall₂ Packet.Holds (packets.filter Packet.isKnown) ms ∧
        drain magic (stream magic packets ++ tail) = ⟨ms, none, tail⟩) ∧
      ((¬ ∀ p ∈ packets, p.Legible) →
        ∃ before bad after cause ms, packets = before ++ bad :: after ∧
          (∀ p ∈ before, p.Legible) ∧ bad.isKnown ∧
          Message.decode bad.command bad.payload = .error cause ∧
          List.Forall₂ Packet.Holds (before.filter Packet.isKnown) ms ∧
          drain magic (stream magic packets ++ tail) =
            ⟨ms, some (.decode bad.command cause), stream magic after ++ tail⟩) := by
  constructor
  · intro hlegible
    obtain ⟨ms, hms, hdrain⟩ := drain_legible hmagic hfits hlegible tail
    refine ⟨ms, hms, ?_⟩
    rw [hdrain, drain_of_incomplete (next_of_part hmagic hlast hpart hstrict), Drained.after,
      List.append_nil]
  · intro hillegible
    obtain ⟨before, bad, after, cause, rfl, hbefore, hknown, hcause⟩ :=
      exists_first_malformed hillegible
    obtain ⟨hfits, hfits'⟩ := List.forall_mem_append.mp hfits
    obtain ⟨ms, hms, hdrain⟩ := drain_legible hmagic hfits hbefore
      (bad.encode magic ++ (stream magic after ++ tail))
    have hstream : stream magic (before ++ bad :: after) ++ tail =
        stream magic before ++ (bad.encode magic ++ (stream magic after ++ tail)) := by
      simp only [stream, List.map_append, List.map_cons, List.flatten_append, List.flatten_cons,
        List.append_assoc]
    refine ⟨before, bad, after, cause, ms, rfl, hbefore, hknown, hcause, hms, ?_⟩
    rw [hstream, hdrain, drain_malformed hmagic (hfits' bad List.mem_cons_self) _ hcause,
      Drained.after, List.append_nil]

/-- Two known commands, with one between them that is not known and fills its field. -/
def mixedPackets : List Packet :=
  [⟨"verack", []⟩, ⟨"sendtxrcncl0", [1, 2]⟩, ⟨"ping", []⟩]

/-- Two messages and a frame between them that nobody reads, and then the same with a ping that is
too short:  what is in front of it is still received, and all that is behind it is left. -/
theorem drain_stream_mixed :
    drain [1, 2, 3, 4] (stream [1, 2, 3, 4] mixedPackets ++ [1, 2, 3, 4]) =
        ⟨[.verack, .ping ⟨none⟩], none, [1, 2, 3, 4]⟩ ∧
      ∃ before bad after cause ms, mixedPackets ++ [⟨"ping", [1]⟩] = before ++ bad :: after ∧
        drain [1, 2, 3, 4] (stream [1, 2, 3, 4] (mixedPackets ++ [⟨"ping", [1]⟩]) ++ [1, 2, 3, 4]) =
          ⟨ms, some (.decode bad.command cause), stream [1, 2, 3, 4] after ++ [1, 2, 3, 4]⟩ := by
  have hfits (p : Packet) (hp : p ∈ mixedPackets ++ [⟨"ping", [1]⟩]) : p.Fits := by
    simp only [mixedPackets, List.cons_append, List.nil_append, List.mem_cons, List.not_mem_nil,
      or_false] at hp
    obtain rfl | rfl | rfl | rfl := hp <;> exact ⟨by decide, by decide, by decide⟩
  have hlegible (p : Packet) (hp : p ∈ mixedPackets) : p.Legible := by
    simp only [mixedPackets, List.mem_cons, List.not_mem_nil, or_false] at hp
    obtain rfl | rfl | rfl := hp
    · exact fun _ => ⟨.verack, rfl⟩
    · exact nofun
    · exact fun _ => ⟨.ping ⟨none⟩, rfl⟩
  have hillegible : ¬ ∀ p ∈ mixedPackets ++ [⟨"ping", [1]⟩], p.Legible := by
    intro hall
    obtain ⟨m, hm⟩ := hall ⟨"ping", [1]⟩ (by simp) rfl
    have hshort : Message.decode "ping" [1] = .error (.unexpectedEnd 8 1) := rfl
    rw [Packet.Holds, hshort] at hm
    cases hm
  have hpart : [1, 2, 3, 4] <+: Packet.encode [1, 2, 3, 4] ⟨"verack", []⟩ := by
    rw [Packet.encode, encode, List.append_assoc, List.append_assoc, List.append_assoc]
    exact List.prefix_append _ _
  have hstrict : [1, 2, 3, 4] ≠ Packet.encode [1, 2, 3, 4] ⟨"verack", []⟩ := by
    intro hsame
    have hlength := congrArg List.length hsame
    simp [Packet.encode, encode, length_fixedStringBytes] at hlength
  have hlast : Packet.Fits ⟨"verack", []⟩ := ⟨by decide, by decide, by decide⟩
  obtain ⟨hwhole, -⟩ := @drain_stream _ _ mixedPackets _ rfl
    (fun p hp => hfits p (List.mem_append_left _ hp)) hlast hpart hstrict
  obtain ⟨-, hfault⟩ := drain_stream rfl hfits hlast hpart hstrict
  obtain ⟨ms, hms, hdrain⟩ := hwhole hlegible
  obtain ⟨before, bad, after, cause, ms', hsplit, -, -, -, -, hdrain'⟩ := hfault hillegible
  refine ⟨?_, before, bad, after, cause, ms', hsplit, hdrain'⟩
  rw [hdrain]
  cases hms with
  | cons hfirst hrest =>
    cases hrest with
    | cons hsecond hnil =>
      cases hnil
      cases hfirst
      cases hsecond
      rfl

end LightPeer.Frame
