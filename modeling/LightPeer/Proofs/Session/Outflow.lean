import LightPeer.Proofs.Frame.Encoding
import LightPeer.Proofs.Session.Writing

/-!
# Bytes on their way to the peer

Bytes that go out stand in two places, with the peer and in front of the link.  Only where the
one ends and the other begins depends on how much the peer takes, so writing leaves all the
bytes together as they are, and a message adds its frame at the end or is not written at all.

* `outflow_flush` — writing moves bytes, and adds none;
* `transmit_framed` — what becomes of the frame of a message;
* `transmit_wide`, `transmit_written` — a link that takes everything takes a message;
* `transmit_full`, `carryOn_of_full` — a link that takes nothing holds it up, until it takes
  everything again.
-/

namespace LightPeer

/-- Frames of every network begin with four bytes of their own. -/
theorem Network.length_magic (network : Network) : network.magic.length = 4 := by
  cases network <;> rfl

/-- A link on which writing never waits, nor fails. -/
structure Link.IsWide (l : Link) : Prop where
  writes : l.failWrites = false
  room : l.room = none

/-- A link on which writing waits, because the peer takes nothing for the time being. -/
structure Link.IsFull (l : Link) : Prop where
  writes : l.failWrites = false
  room : l.room = some 0

namespace Link

variable {l : Link}

/-- What is not written is given back. -/
theorem outbound_write (l : Link) (bs : Bytes) :
    (l.write bs).1.outbound ++ (l.write bs).2.1 = l.outbound ++ bs := by
  unfold write
  split
  · rfl
  · split
    · rfl
    · split
      · exact List.append_nil _
      · exact (List.append_assoc ..).trans (by rw [List.take_append_drop])

/-- When writing is done, everything is written. -/
theorem rest_write {bs : Bytes} (h : (l.write bs).2.2 = .done) : (l.write bs).2.1 = [] := by
  unfold write at h ⊢
  split
  · next hempty => exact List.isEmpty_iff.mp hempty
  · next hfull =>
    rw [if_neg hfull] at h
    split at h
    · cases h
    · next hwrites =>
      rw [if_neg hwrites]
      cases hroom : l.room with
      | none => rfl
      | some room =>
        rw [hroom] at h
        dsimp only at h
        split at h
        · next hrest => exact List.isEmpty_iff.mp hrest
        · cases h

/-- A wide link takes all bytes at once, behind those that lie on it already. -/
theorem IsWide.write_eq (h : l.IsWide) (bs : Bytes) :
    l.write bs = ({ l with outbound := l.outbound ++ bs }, [], .done) := by
  obtain ⟨inbound, ending, readLimit, outbound, room, failWrites, stallClose, closed⟩ := l
  obtain ⟨rfl, rfl⟩ := h
  cases bs with
  | nil =>
    rw [List.append_nil]
    rfl
  | cons b bs => rfl

/-- A full link takes none, and says so without an error, for it may have room later. -/
theorem IsFull.write_eq {bs : Bytes} (h : l.IsFull) (hsome : bs ≠ []) :
    l.write bs = (l, bs, .blocked) := by
  obtain ⟨inbound, ending, readLimit, outbound, room, failWrites, stallClose, closed⟩ := l
  obtain ⟨rfl, rfl⟩ := h
  cases bs with
  | nil => exact absurd rfl hsome
  | cons b bs => simp [write]

end Link

namespace Connection

variable {c c' c'' : Connection} {m : Outgoing} {progress : Progress}

/-- The bytes that go out: those that the peer has not taken, and behind them those that are
still to be written. -/
def outflow (c : Connection) : Bytes := c.link.outbound ++ c.writer.getD []

/-- Chance is no part of what goes out. -/
theorem outflow_dice (c : Connection) (dice : Dice) :
    ({ c with dice } : Connection).outflow = c.outflow :=
  rfl

/-- Nor is what is noted of the peer. -/
theorem outflow_markLoaded (c : Connection) : c.markLoaded.outflow = c.outflow := rfl

/-- The frame of a message. -/
def frame (m : Outgoing) (c : Connection) : Bytes :=
  Frame.encode c.config.network.magic m.command m.payload

/-- **Writing moves bytes, and adds none.** -/
theorem outflow_flush (c : Connection) : c.flush.1.outflow = c.outflow := by
  unfold flush
  cases hwriter : c.writer with
  | none => rfl
  | some pending =>
    have hbytes := c.link.outbound_write pending
    rw [outflow, outflow, hwriter]
    exact hbytes

/-- When all has been written nothing is left to write. -/
theorem flush_done (h : c.flush.2 = .done) : c.flush.1.writer = some [] := by
  unfold flush at h ⊢
  cases hwriter : c.writer with
  | none =>
    rw [hwriter] at h
    cases h
  | some pending =>
    rw [hwriter] at h
    dsimp only at h ⊢
    split at h
    · next hdone => rw [Link.rest_write hdone]
    · cases h
    · cases h

/-- What becomes of a message: its frame comes behind all other bytes, or it is not written.  A
message that is sent is written, with everything in front of it; one that has to wait as a message
is this one. -/
structure Framed (m : Outgoing) (c c' : Connection) (progress : Progress) : Prop where
  outflow : c'.outflow = c.outflow ∨ c'.outflow = c.outflow ++ c.frame m
  done : progress = .done → c'.outflow = c.outflow ++ c.frame m ∧ c'.writer = some []
  unsent : ∀ waiting, progress = .blocked (some waiting) → waiting = m

/-- Where the bytes are the same, and the network, so is what becomes of a frame. -/
theorem Framed.since (h : Framed m c' c'' progress) (houtflow : c'.outflow = c.outflow)
    (hconfig : c'.config = c.config) : Framed m c c'' progress := by
  obtain ⟨houtflow', hdone, hunsent⟩ := h
  have hframe : c'.frame m = c.frame m := by rw [frame, frame, hconfig]
  rw [houtflow, hframe] at houtflow' hdone
  exact ⟨houtflow', hdone, hunsent⟩

/-- A message that is put behind the bytes to be written goes out as one frame, behind everything
that was to go out before. -/
theorem push_framed (m : Outgoing) (c : Connection) : Framed m c (c.push m).1 (c.push m).2 := by
  unfold push
  cases hwriter : c.writer with
  | none => exact ⟨.inl rfl, nofun, nofun⟩
  | some pending =>
    let filled : Connection := { c.record (.sent m) with writer := some (pending ++ c.frame m) }
    have hfilled : filled.flush.1.outflow = c.outflow ++ c.frame m := by
      rw [outflow_flush, outflow, outflow, hwriter]
      exact (List.append_assoc ..).symm
    refine ⟨.inr hfilled, fun hdone => ⟨hfilled, flush_done hdone⟩, ?_⟩
    intro waiting hblocked
    cases flush_blocked hblocked

/-- **A message adds its frame at the end of the bytes that go out, or nothing.** -/
theorem transmit_framed (m : Outgoing) (c : Connection) :
    Framed m c (c.transmit m).1 (c.transmit m).2 := by
  have hbytes := c.outflow_flush
  have hconfig := c.flush_wrote.config
  unfold transmit
  split
  · split
    · next flushed hdone =>
      rw [hdone] at hbytes hconfig
      exact (push_framed m flushed).since hbytes hconfig
    · next hblocked =>
      rw [hblocked] at hbytes
      refine ⟨.inl hbytes, nofun, ?_⟩
      rintro waiting ⟨⟩
      rfl
    · next hfailed =>
      rw [hfailed] at hbytes
      exact ⟨.inl hbytes, nofun, nofun⟩
  · exact push_framed m c

/-- A wide link takes all that is to be written, and is as wide as before. -/
theorem flush_wide (hwide : c.link.IsWide) (hwriter : c.writer.isSome) :
    c.flush.2 = .done ∧ c.flush.1.link.IsWide := by
  obtain ⟨pending, hpending⟩ := Option.isSome_iff_exists.mp hwriter
  rw [flush, hpending]
  dsimp only
  rw [hwide.write_eq]
  exact ⟨rfl, hwide.writes, hwide.room⟩

/-- A message is written at once over a wide link. -/
theorem push_wide (hwide : c.link.IsWide) (hwriter : c.writer.isSome) (m : Outgoing) :
    (c.push m).2 = .done := by
  obtain ⟨pending, hpending⟩ := Option.isSome_iff_exists.mp hwriter
  rw [push, hpending]
  let filled : Connection := { c.record (.sent m) with writer := some (pending ++ c.frame m) }
  have hfilled : filled.flush.2 = .done := (flush_wide (c := filled) hwide rfl).1
  exact hfilled

/-- **A link that takes everything takes a message**, behind all the bytes that were waiting to be
written. -/
theorem transmit_wide (hwide : c.link.IsWide) (hwriter : c.writer.isSome) (m : Outgoing) :
    (c.transmit m).2 = .done := by
  obtain ⟨hdone, hwide'⟩ := flush_wide hwide hwriter
  have hwriter' : c.flush.1.writer.isSome := c.flush_wrote.reader.writer.trans hwriter
  have hflush : c.flush = (c.flush.1, .done) := Prod.ext rfl hdone
  unfold transmit
  split
  · rw [hflush]
    exact push_wide hwide' hwriter' m
  · exact push_wide hwide hwriter m

/-- A message has been written, and with it all that was to be written. -/
def written (m : Outgoing) (c : Connection) : Connection :=
  { c.record (.sent m) with
    link := { c.link with outbound := c.outflow ++ c.frame m }
    writer := some [] }

/-- **On a wide link a message is written at once**, behind whatever has been waiting. -/
theorem transmit_written (hwide : c.link.IsWide) (hwriter : c.writer.isSome) (m : Outgoing) :
    c.transmit m = (c.written m, .done) := by
  obtain ⟨pending, hpending⟩ := Option.isSome_iff_exists.mp hwriter
  have hpush {c : Connection} {pending : Bytes} (hwide : c.link.IsWide)
      (hpending : c.writer = some pending) : c.push m = (c.written m, .done) := by
    rw [push, hpending]
    dsimp only
    rw [flush]
    dsimp only [record]
    rw [hwide.write_eq, written, outflow, hpending, Option.getD_some, List.append_assoc]
    rfl
  unfold transmit
  split
  · let flushed : Connection :=
      { c with link := { c.link with outbound := c.link.outbound ++ pending }, writer := some [] }
    have hflush : c.flush = (flushed, .done) := by
      rw [flush, hpending]
      dsimp only
      rw [hwide.write_eq]
    have houtflow : flushed.outflow = c.outflow := by
      rw [outflow, outflow, hpending]
      exact List.append_nil _
    have hwritten : flushed.push m = (flushed.written m, .done) :=
      hpush (c := flushed) ⟨hwide.writes, hwide.room⟩ rfl
    rw [hflush]
    dsimp only
    rw [hwritten, written, houtflow]
    rfl
  · exact hpush hwide hpending

/-- On a full link nothing is written, and what was waiting goes on waiting. -/
theorem flush_full {pending : Bytes} (hfull : c.link.IsFull) (hpending : c.writer = some pending)
    (hsome : pending ≠ []) : c.flush = (c, .blocked none) := by
  rw [flush, hpending]
  dsimp only
  rw [hfull.write_eq hsome]
  obtain ⟨config, watched, policy, session, listeners, supply, link, writer, task, signals, dice,
    journal⟩ := c
  cases hpending
  rfl

/-- **A full link takes nothing.**  The message is noted as sent, and its frame waits behind the
others. -/
theorem push_full {pending : Bytes} (hfull : c.link.IsFull) (hpending : c.writer = some pending)
    (m : Outgoing) : c.push m =
      ({ c.record (.sent m) with writer := some (pending ++ c.frame m) }, .blocked none) := by
  let filled : Connection := { c.record (.sent m) with writer := some (pending ++ c.frame m) }
  have hframe : c.frame m ≠ [] := Frame.encode_ne_nil (Network.length_magic _) _ _
  rw [push, hpending]
  exact flush_full (c := filled) hfull rfl (List.append_ne_nil_of_right_ne_nil _ hframe)

/-- A message that meets a full link waits, in front of the writer or behind the bytes there. -/
theorem transmit_full {pending : Bytes} (hfull : c.link.IsFull) (hpending : c.writer = some pending)
    (hsome : pending ≠ []) (m : Outgoing) : c.transmit m = (c, .blocked (some m)) ∨
      c.transmit m =
        ({ c.record (.sent m) with writer := some (pending ++ c.frame m) }, .blocked none) := by
  unfold transmit
  split
  · rw [flush_full hfull hpending hsome]
    exact .inl rfl
  · exact .inr (push_full hfull hpending m)

/-- **What a full link has held up is written when the link takes everything**, no matter where it
has been waiting. -/
theorem carryOn_of_full {pending : Bytes} {unsent : Option Outgoing} (hfull : c.link.IsFull)
    (hpending : c.writer = some pending) (hsome : pending ≠ [])
    (hheld : c.transmit m = (c', .blocked unsent)) (task : Task) :
    carryOn unsent { c' with link := { c'.link with room := none }, task } =
      (({ c with link := { c.link with room := none }, task } : Connection).written m, .done) := by
  have hwide {outbound : Bytes} :
      ({ c.link with room := none, outbound } : Link).IsWide := ⟨hfull.writes, rfl⟩
  rcases transmit_full hfull hpending hsome m with hwaits | hwaits
  · cases hheld.symm.trans hwaits
    exact transmit_written (c := { c with link := { c.link with room := none }, task }) hwide
      (by rw [hpending]; rfl) m
  · cases hheld.symm.trans hwaits
    rw [carryOn, flush]
    dsimp only [record]
    rw [hwide.write_eq, written, outflow]
    dsimp only
    rw [hpending, Option.getD_some, List.append_assoc]
    rfl

end Connection

end LightPeer
