import LightPeer.Proofs.Session.Acts

/-!
# What acts do to listeners and journal

As far as listeners and journal go, all that is done with a connection is made of three kinds of
change: nothing happens to them, the connection writes something down, or it tells an event to its
listeners.  Only listeners themselves, and turns in which some are registered or removed, do more.

So a property of listeners and journal needs one lemma for each kind of change, and holds then
whatever is done.

* `dispatch_changes`, `settle_changes` — the side that reads;
* `after_changes` — rows of acts.
-/

namespace LightPeer

open Connection

/-- An entry that a connection writes by itself: neither an event and what becomes of it, nor
anything of its listeners. -/
def Entry.IsOwn : Entry → Bool
  | .emitted _ => false
  | .called .. => false
  | .said _ => false
  | .noticed (.listener _) => false
  | _ => true

/-- A change of a connection, as far as listeners and journal go. -/
inductive Change : Connection → Connection → Prop
  | still {c c'} (hlisteners : c'.listeners = c.listeners) (hjournal : c'.journal = c.journal) :
    Change c c'
  | notes {c} {entry : Entry} (h : entry.IsOwn) : Change c (c.record entry)
  | tells {c} (kind : ListenerKind) (event : kind.Event) : Change c (emit kind event c)

/-- A row of changes. -/
abbrev Changes : Connection → Connection → Prop := Relation.ReflTransGen Change

/-- No change takes an entry back, and none is written between others. -/
theorem Change.journal_extends {c c' : Connection} (h : Change c c') :
    c.journal <+: c'.journal := by
  cases h with
  | still hlisteners hjournal =>
    exact ⟨[], by rw [List.append_nil, hjournal]⟩
  | notes hown => exact List.prefix_append ..
  | tells kind event =>
    obtain ⟨added, hadded, _⟩ := emit_calls kind event c
    rw [hadded]
    exact List.prefix_append ..

/-- Nothing that is done takes anything back, so what was accounted for once remains so. -/
theorem Changes.journal_extends {c c' : Connection} (h : Changes c c') :
    c.journal <+: c'.journal := by
  induction h with
  | refl => exact List.prefix_refl _
  | tail _ hlast ih => exact ih.trans hlast.journal_extends

namespace Connection

theorem flush_changes (c : Connection) : Changes c c.flush.1 := by
  unfold flush
  split
  · exact .refl
  · exact .single (.still rfl rfl)

/-- A message that is handed to the writer is an entry of the connection itself. -/
theorem push_changes (m : Outgoing) (c : Connection) : Changes c (c.push m).1 := by
  have hsent : Changes c (c.record (.sent m)) := .single (.notes rfl)
  unfold push
  split
  · exact .refl
  · next pending _ =>
    let frame := Frame.encode c.config.network.magic m.command m.payload
    let filled : Connection := { c.record (.sent m) with writer := some (pending ++ frame) }
    have hfilled : Changes c filled := hsent.tail (.still rfl rfl)
    exact hfilled.trans (flush_changes filled)

/-- To send a message is at most to note it, between writings that leave no entry. -/
theorem transmit_changes (m : Outgoing) (c : Connection) : Changes c (c.transmit m).1 := by
  have hflush := flush_changes c
  unfold transmit
  split
  · split
    · next hdone =>
      rw [hdone] at hflush
      exact hflush.trans (push_changes m _)
    · next hblocked =>
      rw [hblocked] at hflush
      exact hflush
    · next hfailed =>
      rw [hfailed] at hflush
      exact hflush
  · exact push_changes m c

/-- A reply that goes on leaves the entry that it was sent, or none if it had been noted before it
was held up. -/
theorem carryOn_changes (unsent : Option Outgoing) (c : Connection) :
    Changes c (c.carryOn unsent).1 := by
  cases unsent with
  | none => exact flush_changes c
  | some m => exact transmit_changes m c

/-- A filter is a message like others, but that the number drawn for it is used up and that the peer
is noted to have it. -/
theorem transmitFilter_changes (c : Connection) : Changes c c.transmitFilter.1 := by
  by_cases htakes : c.TakesFilter
  · cases hfilter : c.hasFilter with
    | false =>
      rw [transmitFilter_nothing htakes hfilter]
    | true =>
      rw [transmitFilter_eq htakes hfilter]
      have hrolled : Changes c { c with dice := c.dice.roll.2 } := .single (.still rfl rfl)
      have hsent := hrolled.trans (transmit_changes (.filterLoad c.nextFilter) _)
      dsimp only
      split
      · exact hsent.tail (.still rfl rfl)
      · exact hsent
  · obtain ⟨cause, hrefused⟩ := transmitFilter_refused htakes
    rw [hrefused]

/-- The session moves to a stage, and the stage is noted. -/
theorem enter_changes (stage : Stage) (c : Connection) : Changes c (c.enter stage) := by
  have hmoved : Changes c { c with session := { c.session with stage } } :=
    .single (.still rfl rfl)
  exact hmoved.tail (.notes rfl)

theorem onVersion_changes (v : Version) (c : Connection) : Changes c (c.onVersion v).1 := by
  have hmet : Changes c (c.meet v) := .single (.still rfl rfl)
  rw [onVersion_eq]
  split
  · exact hmet.trans (transmit_changes .verack _)
  · exact hmet

/-- The end of the handshake is noted, told, and answered with a filter if something is watched. -/
theorem onVerack_changes (c : Connection) : Changes c c.onVerack.1 := by
  have htold := (enter_changes .ready c).tail (.tells .connection .verack)
  unfold onVerack
  dsimp only
  split
  · exact htold.trans (transmitFilter_changes _)
  · exact htold

/-- **Every message is handled in a row of changes**: notes, one event at most, and one reply at
most. -/
theorem handle_changes (m : Message) (c : Connection) : Changes c (c.handle m).1 := by
  cases m with
  | version v => exact onVersion_changes v c
  | verack => exact onVerack_changes c
  | ping p =>
    show Changes c (c.onPing p).1
    unfold onPing
    split
    · exact transmit_changes _ c
    · exact .refl
  | inv entries =>
    show Changes c (c.onInventory entries).1
    unfold onInventory
    dsimp only
    split
    · exact .refl
    · exact transmit_changes _ c
  | tx t => exact .single (.tells .transaction t)
  | block b => exact .single (.tells .block (.full b))
  | merkleBlock b =>
    show Changes c (c.onMerkleBlock b).1
    unfold onMerkleBlock
    split
    · exact .refl
    · next block _ => exact .single (.tells .block (.filtered block))

/-- So is a row of messages, as far as it comes. -/
theorem dispatch_changes (ms : List Message) (c : Connection) :
    Changes c (dispatch ms c).1 := by
  induction ms generalizing c with
  | nil => exact .refl
  | cons m ms ih =>
    have hreceived : Changes c (c.record (.received m)) := .single (.notes rfl)
    have hhandled := hreceived.trans (handle_changes m _)
    rw [dispatch]
    split
    · next hdone =>
      rw [hdone] at hhandled
      exact hhandled.trans (ih _)
    · next hblocked =>
      rw [hblocked] at hhandled
      exact hhandled
    · next hfailed =>
      rw [hfailed] at hhandled
      exact hhandled

/-- The last stage is noted before anybody is told, and so a listener that looks finds the session
over. -/
theorem part_changes (c : Connection) : Changes c c.part := by
  let reset : Connection := { c with
    session := { c.session with filterLoaded := false }
    signals := { c.signals with parted := true } }
  have hreset : Changes c reset := .single (.still rfl rfl)
  exact hreset.trans (enter_changes .disconnected reset)

/-- The end of a session is noted, and told unless that was seen to. -/
theorem endSession_changes (c : Connection) : Changes c c.endSession := by
  unfold endSession
  split
  · exact part_changes c
  · exact (part_changes c).tail (.tells .connection .disconnected)

theorem hangUp_endSession_changes (c : Connection) : Changes c c.hangUp.endSession := by
  have hhung : Changes c c.hangUp := .single (.still rfl rfl)
  exact hhung.trans (endSession_changes c.hangUp)

theorem conclude_changes (c : Connection) : Changes c c.conclude := by
  unfold conclude
  split
  · exact .single (.still rfl rfl)
  · exact (hangUp_endSession_changes c).tail (.still rfl rfl)

/-- The reason for which a session is given up stands in front of its end. -/
theorem abandon_changes (cause : SessionError) (c : Connection) : Changes c (c.abandon cause) := by
  have hnoticed : Changes c (c.notice (.sessionFailed c.session.peer cause)) :=
    .single (.notes rfl)
  exact hnoticed.trans (conclude_changes _)

/-- What comes of a portion of bytes comes of its messages, and of the fault behind them. -/
theorem proceed_changes (received : Backlog) (c : Connection) : Changes c (c.proceed received) := by
  have hdispatched := dispatch_changes received.messages c
  unfold proceed
  split
  · next hfailed =>
    rw [hfailed] at hdispatched
    exact hdispatched.trans (abandon_changes _ _)
  · next hblocked =>
    rw [hblocked] at hdispatched
    exact hdispatched.tail (.still rfl rfl)
  · next hhandled =>
    rw [hhandled] at hdispatched
    split
    · exact hdispatched.trans (abandon_changes _ _)
    · exact hdispatched.tail (.still rfl rfl)

/-- Reading leaves only what its portions leave.  The induction follows the reader, which takes up
one portion after the other. -/
theorem readFrom_changes (waiting : Bytes) (c : Connection) : Changes c (c.readFrom waiting) := by
  fun_induction readFrom waiting c with
  | case1 c left htask => exact .refl
  | case2 waiting c left htask hsome intake size received ih =>
    have hleft : Changes c (c.leave (waiting.drop size)) := .single (.still rfl rfl)
    exact (hleft.trans (proceed_changes received _)).trans ih
  | case3 waiting c htask => exact .refl

/-- The end of the stream ends the session at most. -/
theorem readEnding_changes (c : Connection) : Changes c c.readEnding := by
  unfold readEnding
  split
  · exact abandon_changes _ c
  · split
    · exact abandon_changes _ c
    · exact conclude_changes c
  · exact .refl

theorem resume_changes (c : Connection) : Changes c c.resume := by
  unfold resume
  split
  · next unsent backlog loading _ =>
    have hcarried := carryOn_changes unsent c
    split
    · next carried hdone =>
      have hloaded : Change carried (if loading then carried.markLoaded else carried) := by
        cases loading <;> exact .still rfl rfl
      rw [hdone] at hcarried
      exact (hcarried.tail hloaded).trans (proceed_changes backlog _)
    · next hblocked =>
      rw [hblocked] at hcarried
      exact hcarried.tail (.still rfl rfl)
    · next hfailed =>
      rw [hfailed] at hcarried
      exact hcarried.trans (abandon_changes _ _)
  · exact .refl

theorem read_changes (c : Connection) : Changes c c.read :=
  (readFrom_changes c.link.inbound c).trans (readEnding_changes _)

theorem halt_changes (c : Connection) : Changes c c.halt := by
  unfold halt
  split
  · exact conclude_changes c
  · exact conclude_changes c
  · exact .refl

/-- Whatever the reader can do by itself is a row of changes. -/
theorem settle_changes (c : Connection) : Changes c c.settle := by
  unfold settle
  split
  · exact halt_changes c
  · exact (resume_changes c).trans (read_changes c.resume)

theorem await_changes (c : Connection) : Changes c c.await :=
  (enter_changes .awaitingVerack c).tail (.still rfl rfl)

/-- A session begins with an event that is told, and then with the introduction that is sent. -/
theorem start_changes (peer : Endpoint) (link : Link) (now : Int64) (c : Connection) :
    Changes c (c.start peer link now).1 := by
  have hopened : Changes c (c.attach link) := .single (.still rfl rfl)
  have htold := hopened.tail (.tells .connection .connected)
  let told := emit .connection .connected (c.attach link)
  have hrolled : Changes c { told with dice := told.dice.roll.2 } := htold.tail (.still rfl rfl)
  have hsent := hrolled.trans
    (transmit_changes (.version (told.introduction peer now told.dice.roll.1)) _)
  unfold start
  dsimp only
  split
  · next hdone =>
    rw [hdone] at hsent
    exact (hsent.trans (await_changes _)).tail (.still rfl rfl)
  · next hblocked =>
    rw [hblocked] at hsent
    exact hsent
  · next cause hfailed =>
    rw [hfailed] at hsent
    have hnoticed := hsent.tail
      (.notes (show (Entry.noticed (.versionUnsent peer cause)).IsOwn from rfl))
    split
    · exact hnoticed.tail (.still rfl rfl)
    · exact hnoticed.trans (hangUp_endSession_changes _)

theorem claimed_changes (peer : Endpoint) (c : Connection) : Changes c (c.claimed peer) := by
  have hclaimed : Changes c { c with session := { peer := some peer } } := .single (.still rfl rfl)
  exact hclaimed.trans (enter_changes .connecting _)

/-- If a session is begun, its beginning comes first and then what the reader makes of bytes that
lie on the link already. -/
theorem connect_changes (peer : Endpoint) (link : Link) (now : Int64) (c : Connection) :
    Changes c (c.connect peer link now).1 := by
  by_cases hstage : c.session.stage = .disconnected
  · unfold connect
    rw [claim_of_disconnected hstage]
    exact (claimed_changes peer c).trans ((start_changes peer link now _).trans (settle_changes _))
  · rw [connect_refused peer link now hstage]

/-- A link that could not be opened leaves a report between two stages. -/
theorem dialFailed_changes (peer : Endpoint) (text : String) (c : Connection) :
    Changes c (c.dialFailed peer text).1 := by
  by_cases hstage : c.session.stage = .disconnected
  · rw [dialFailed_of_disconnected peer text hstage]
    have hnoticed := (claimed_changes peer c).tail
      (.notes (show (Entry.noticed (.dialFailed peer text)).IsOwn from rfl))
    exact hnoticed.trans (enter_changes .disconnected _)
  · rw [dialFailed_refused peer text hstage]

/-- The session is ended for a reader who is given up. -/
theorem giveUp_changes (c : Connection) :
    Changes c { (c.notice .readerAborted).endSession with task := .none } := by
  have hnoticed : Changes c (c.notice .readerAborted) := .single (.notes rfl)
  exact (hnoticed.trans (endSession_changes _)).tail (.still rfl rfl)

theorem ask_changes (c : Connection) : Changes c c.ask := .single (.still rfl rfl)

/-- The owner ends a session by a report at most, and its end. -/
theorem disconnect_changes (c : Connection) : Changes c c.disconnect.1 := by
  have hasked := ask_changes c
  have haborted : Changes c (c.ask.notice .readerAborted) := hasked.tail (.notes rfl)
  unfold disconnect
  split
  · exact .refl
  · exact hasked.tail (.still rfl rfl)
  · split
    · exact hasked.trans (giveUp_changes c.ask)
    · have hclosed : Changes c { c.ask with link := { c.link with closed := true } } :=
        hasked.tail (.still rfl rfl)
      exact (hclosed.trans (endSession_changes _)).tail (.still rfl rfl)
  · split
    · split
      · have hdropped : Changes c { c.ask with writer := none } := hasked.tail (.still rfl rfl)
        exact hdropped.trans (giveUp_changes { c.ask with writer := none })
      · exact (hasked.trans (hangUp_endSession_changes c.ask)).tail (.still rfl rfl)
    · split
      · exact haborted.tail (.still rfl rfl)
      · exact (haborted.trans (hangUp_endSession_changes _)).tail (.still rfl rfl)

theorem relink_changes (link : Link) (c : Connection) :
    Changes c ({ c with link } : Connection).settle := by
  have hlinked : Changes c { c with link } := .single (.still rfl rfl)
  exact hlinked.trans (settle_changes _)

theorem send_changes (m : Outgoing) (c : Connection) : Changes c (c.send m).1 := by
  unfold send
  split
  · exact .refl
  · exact transmit_changes m c

theorem loadFilter_changes (c : Connection) : Changes c c.loadFilter.1 := by
  unfold loadFilter
  split
  · exact .refl
  · exact transmitFilter_changes c

/-- A list that is accepted is noted, and one that is refused leaves no trace. -/
theorem watch_changes (addresses : List String) (c : Connection) :
    Changes c (c.watch addresses).1 := by
  unfold watch
  split
  · exact .refl
  · next watched _ =>
    have hwatched : Changes c { c with watched } := .single (.still rfl rfl)
    exact hwatched.tail (.notes rfl)

/-- A new way to build filters is noted.  It is used for the next filter and not for one that the
peer has. -/
theorem setPolicy_changes (policy : FilterPolicy) (c : Connection) :
    Changes c (c.setPolicy policy) := by
  have htuned : Changes c { c with policy } := .single (.still rfl rfl)
  exact htuned.tail (.notes (show (Entry.tuning policy).IsOwn from rfl))

end Connection

/-- An act that registers no listener and removes none. -/
def Act.KeepsListeners : Act → Prop
  | .turn (.listen ..) => False
  | .turn (.remove _) => False
  | _ => True

/-- Whatever is done once, except to the listeners themselves, is a row of changes. -/
theorem Act.apply_changes {act : Act} (h : act.KeepsListeners) (c : Connection) :
    Changes c (act.apply c) := by
  cases act with
  | connect peer link now => exact connect_changes peer link now c
  | dialFailed peer text => exact dialFailed_changes peer text c
  | disconnect => exact disconnect_changes c
  | turn turn =>
    cases turn with
    | deliver bytes ending => exact relink_changes (c.link.receive bytes ending) c
    | relink change => exact relink_changes (change c.link) c
    | send m => exact send_changes m c
    | loadFilter => exact loadFilter_changes c
    | watch addresses => exact watch_changes addresses c
    | tune policy => exact setPolicy_changes policy c
    | listen kind listener => exact absurd h id
    | remove id => exact absurd h fun hnone => hnone

/-- **Whatever is done, it is a row of changes.** -/
theorem after_changes {acts : List Act} (h : ∀ act ∈ acts, act.KeepsListeners) (c : Connection) :
    Changes c (c.after acts) := by
  induction acts generalizing c with
  | nil => exact .refl
  | cons act acts ih =>
    obtain ⟨hact, hacts⟩ := List.forall_mem_cons.mp h
    exact (Act.apply_changes hact c).trans (ih hacts _)

end LightPeer
