import LightPeer.Proofs.Session.Answers
import LightPeer.Proofs.Session.Outflow
import LightPeer.Proofs.Session.Portion

/-!
# Sessions that nothing holds up

Over a link that takes every byte at once no answer ever waits, and if nobody listens for the stages
of a session, then what comes of an act or of a message can be said in a single equation.  Each of
these sessions is `Fluent`, and each step leaves it so; a whole session is then computed step by
step, from the greeting of the peer to the end.

* `Connection.connect_greeted` — the peer is greeted, and the reader waits;
* `Connection.connect_deliver` — what the first bytes of a session come to;
* `Connection.Fluent.handle_version`, `Connection.Fluent.handle_inv` — what is answered at once;
* `Connection.Fluent.handle_verack` — a filter is handed over;
* `Connection.Fluent.loadFilter_eq`, `Connection.disconnect_of_nobody` — what the owner does;
* `Connection.Waits.ask_over_full` — and what is different on a link that is full for a while.
-/

namespace LightPeer

namespace Connection

variable {c c' c'' first : Connection} {link : Link} {intake : Intake} {m : Message}
  {ms : List Message}
  {bs pending : Bytes} {entries : List Inventory}

/-- If nobody listens, an event is written down and that is all. -/
theorem emit_of_nobody {kind : ListenerKind} (h : (c.listeners.ofKind kind).entries = [])
    (event : kind.Event) : emit kind event c = c.record (.emitted (.ofKind kind event)) := by
  show List.foldl _ _ (c.listeners.ofKind kind).entries = _
  rw [h]
  rfl

/-- Nobody listens for the stages of the session, and what is to be written is written at once. -/
structure Fluent (c : Connection) : Prop where
  quiet : (c.listeners.ofKind .connection).entries = []
  wide : c.link.IsWide
  writer : c.writer.isSome

/-- A wide link is as wide as before when something has been written to it. -/
theorem Fluent.written (h : c.Fluent) (m : Outgoing) : (c.written m).Fluent :=
  ⟨h.quiet, ⟨h.wide.writes, h.wide.room⟩, rfl⟩

theorem Fluent.reading (h : c.Fluent) (intake : Intake) :
    ({ c with task := .reading intake } : Connection).Fluent :=
  ⟨h.quiet, h.wide, h.writer⟩

/-- What stays as it is from one session to the next, unless the owner or a listener changes it. -/
structure SameSettings (c c' : Connection) : Prop where
  config : c'.config = c.config
  watched : c'.watched = c.watched
  listeners : c'.listeners = c.listeners

/-- Settings that stay from act to act stay over a row of acts. -/
theorem SameSettings.trans (h : c.SameSettings c') (h' : c'.SameSettings c'') :
    c.SameSettings c'' :=
  ⟨h'.config.trans h.config, h'.watched.trans h.watched, h'.listeners.trans h.listeners⟩

theorem SameSettings.task (c : Connection) (task : Task) : c.SameSettings { c with task } :=
  ⟨rfl, rfl, rfl⟩

/-- What stays as it is while messages come and go: the settings, the reader, and the ways of the
link. -/
structure SameSetup (c c' : Connection) : Prop extends SameSettings c c' where
  task : c'.task = c.task
  signals : c'.signals = c.signals
  inbound : c'.link.inbound = c.link.inbound
  ending : c'.link.ending = c.link.ending
  readLimit : c'.link.readLimit = c.link.readLimit
  stallClose : c'.link.stallClose = c.link.stallClose

/-- A setup that stays from step to step stays over a row of steps.  The steps below are put
together by this, since two states that differ in what has been written are not compared field by
field. -/
theorem SameSetup.trans (h : c.SameSetup c') (h' : c'.SameSetup c'') : c.SameSetup c'' :=
  ⟨h.toSameSettings.trans h'.toSameSettings, h'.task.trans h.task, h'.signals.trans h.signals,
    h'.inbound.trans h.inbound, h'.ending.trans h.ending, h'.readLimit.trans h.readLimit,
    h'.stallClose.trans h.stallClose⟩

theorem SameSetup.record (entry : Entry) (c : Connection) : c.SameSetup (c.record entry) :=
  ⟨⟨rfl, rfl, rfl⟩, rfl, rfl, rfl, rfl, rfl, rfl⟩

/-- To write to the peer changes what lies on the link, but not the ways in which it takes and
yields bytes. -/
theorem SameSetup.written (m : Outgoing) (c : Connection) : c.SameSetup (c.written m) :=
  ⟨⟨rfl, rfl, rfl⟩, rfl, rfl, rfl, rfl, rfl, rfl⟩

theorem SameSetup.enter (stage : Stage) (c : Connection) : c.SameSetup (c.enter stage) :=
  ⟨⟨rfl, rfl, rfl⟩, rfl, rfl, rfl, rfl, rfl, rfl⟩

/-- What the peer says of itself belongs to the session and not to the settings. -/
theorem SameSetup.meet (v : Version) (c : Connection) : c.SameSetup (c.meet v) :=
  ⟨⟨rfl, rfl, rfl⟩, rfl, rfl, rfl, rfl, rfl, rfl⟩

theorem SameSetup.markLoaded (c : Connection) : c.SameSetup c.markLoaded :=
  ⟨⟨rfl, rfl, rfl⟩, rfl, rfl, rfl, rfl, rfl, rfl⟩

theorem SameSetup.rolled (c : Connection) (dice : Dice) : c.SameSetup { c with dice } :=
  ⟨⟨rfl, rfl, rfl⟩, rfl, rfl, rfl, rfl, rfl, rfl⟩

/-- The greeting of a peer, of which nobody hears. -/
def greeted (first : Connection) (link : Link) : Connection :=
  let told := ((first.claimed default).attach link).record (.emitted (.connection .connected))
  { ({ told with dice := first.dice.roll.2 }.written
      (.version (first.introduction default 0 first.dice.roll.1))).await with task := .reading {} }

/-- Over a wide link the peer is greeted at once. -/
theorem begun_of_nobody (hquiet : (first.listeners.ofKind .connection).entries = [])
    (hwide : link.IsWide) :
    (first.claimed default).start default link 0 = (first.greeted link, .done) := by
  let told := ((first.claimed default).attach link).record (.emitted (.connection .connected))
  have htold : emit .connection .connected ((first.claimed default).attach link) = told :=
    emit_of_nobody (c := (first.claimed default).attach link) hquiet .connected
  have hsent : ({ told with dice := told.dice.roll.2 } : Connection).transmit
      (.version (told.introduction default 0 told.dice.roll.1)) = (_, .done) :=
    transmit_written (c := { told with dice := told.dice.roll.2 }) hwide rfl _
  rw [start, htold]
  dsimp only
  rw [hsent]
  rfl

/-- **A session begins by waiting.**  Nothing is held back on a link that has just been opened, and
so the greeting has gone out before anything else can happen. -/
theorem connect_greeted (hstage : first.session.stage = .disconnected)
    (hquiet : (first.listeners.ofKind .connection).entries = []) :
    first.connect default {} 0 = (first.greeted {}, .done) := by
  have hbegun := @begun_of_nobody first {} hquiet ⟨rfl, rfl⟩
  have hgreeted : first.begun {} = first.greeted {} := congrArg Prod.fst hbegun
  have hfresh : (first.greeted {}).Fresh := ⟨rfl, rfl, rfl, rfl, rfl⟩
  rw [← hgreeted] at hfresh ⊢
  exact connect_begun hstage (congrArg Prod.snd hbegun) hfresh

/-- A session over a link that has just been opened is fluent once the peer is greeted, if nobody
listens for its stages. -/
theorem greeted_fluent (hquiet : (first.listeners.ofKind .connection).entries = []) :
    (first.greeted {}).Fluent := by
  have hrolled : ({ ((first.claimed default).attach {}).record (.emitted (.connection .connected))
      with dice := first.dice.roll.2 } : Connection).Fluent := ⟨hquiet, ⟨rfl, rfl⟩, rfl⟩
  have hawaiting {c : Connection} (h : c.Fluent) :
      ({ c.await with task := .reading {} } : Connection).Fluent := ⟨h.quiet, h.wide, h.writer⟩
  exact hawaiting (hrolled.written _)

/-- The greeting uses a number of the dice and a new link, but the settings are those from before
the session. -/
theorem SameSettings.greeted (first : Connection) (link : Link) :
    first.SameSettings (first.greeted link) := by
  constructor <;> simp only [Connection.greeted, await, enter, written, record, attach, claimed]

/-- What is written down when a session begins. -/
theorem journal_greeted (first : Connection) : (first.greeted {}).journal = first.journal ++
    [.entered .connecting, .emitted (.connection .connected),
      .sent (.version (first.introduction default 0 first.dice.roll.1)),
      .entered .awaitingVerack] := by
  simp only [greeted, await, enter, written, record, attach, claimed, List.append_assoc,
    List.cons_append, List.nil_append]

/-- **What the first bytes of a session come to**, if all the messages in them are handled: the
session begins, and when they have been read the reader waits again, with what is left of them. -/
theorem connect_deliver {bs rest : Bytes} (hstage : first.session.stage = .disconnected)
    (hquiet : (first.listeners.ofKind .connection).entries = [])
    (hread : Frame.drain first.config.network.magic bs = ⟨ms, none, rest⟩) (hsome : bs ≠ [])
    (hfew : bs.length ≤ 8192) (hhandled : dispatch ms (first.greeted {}) = (c, .handled))
    (hending : c.link.ending = none) :
    (first.connect default {} 0).1.deliver bs none =
      { c with task := .reading ((Intake.reserve 1 {}).left bs rest) } := by
  have hfresh : (first.greeted {}).Fresh := ⟨rfl, rfl, rfl, rfl, rfl⟩
  rw [← (SameSettings.greeted first {}).config] at hread
  rw [connect_greeted hstage hquiet]
  exact hfresh.deliver_handled hread hsome hfew hhandled hending

/-- A message that is handled makes way for those behind it. -/
theorem dispatch_cons (h : (c.record (.received m)).handle m = (c', .done)) :
    dispatch (m :: ms) c = dispatch ms c' := by
  rw [dispatch, h]

/-- The peer has introduced itself, and is told that this was understood. -/
def recognizing (v : Version) (c : Connection) : Connection :=
  ((c.record (.received (.version v))).meet v).written .verack

/-- The peer introduces itself, and all that it could change is what is known of it. -/
theorem SameSetup.recognizing (v : Version) (c : Connection) : c.SameSetup (c.recognizing v) :=
  ((SameSetup.record _ c).trans (.meet _ _)).trans (.written _ _)

/-- An introduction is confirmed without anything being held up. -/
theorem Fluent.recognizing (h : c.Fluent) (v : Version) : (c.recognizing v).Fluent :=
  Fluent.written (c := (c.record _).meet _) ⟨h.quiet, h.wide, h.writer⟩ _

/-- An introduction of a peer that understands confirmations is confirmed. -/
theorem Fluent.handle_version (h : c.Fluent) {v : Version}
    (hmodern : confirmedSince ≤ min v.version c.config.protocolVersion) :
    (c.record (.received (.version v))).handle (.version v) = (c.recognizing v, .done) := by
  have hmodern' : confirmedSince ≤
      min v.version (c.record (.received (.version v))).config.protocolVersion := hmodern
  rw [handle, onVersion, if_pos hmodern']
  exact transmit_written (c := (c.record (.received (.version v))).meet v) h.wide h.writer _

/-- Objects have been announced, and those that are wanted are asked for. -/
def asking (entries : List Inventory) (c : Connection) : Connection :=
  (c.record (.received (.inv entries))).written (.getData (wanted c.session.filterLoaded entries))

/-- A request is written, and nothing else comes of an announcement. -/
theorem SameSetup.asking (entries : List Inventory) (c : Connection) :
    c.SameSetup (c.asking entries) :=
  (SameSetup.record _ c).trans (.written _ _)

theorem Fluent.asking (h : c.Fluent) (entries : List Inventory) : (c.asking entries).Fluent :=
  Fluent.written (c := c.record _) ⟨h.quiet, h.wide, h.writer⟩ _

/-- What is asked for depends on whether the peer has a filter by the time of the announcement. -/
theorem journal_asking (entries : List Inventory) (c : Connection) :
    (c.asking entries).journal = c.journal ++
      [.received (.inv entries), .sent (.getData (wanted c.session.filterLoaded entries))] := by
  simp only [Connection.asking, Connection.written, Connection.record, List.append_assoc,
    List.cons_append, List.nil_append]

/-- What is wanted is asked for at once. -/
theorem Fluent.handle_inv (h : c.Fluent) {entries : List Inventory}
    (hwanted : wanted c.session.filterLoaded entries ≠ []) :
    (c.record (.received (.inv entries))).handle (.inv entries) = (c.asking entries, .done) := by
  have hsome : (wanted (c.record (.received (.inv entries))).session.filterLoaded
      entries).isEmpty = false := List.isEmpty_eq_false_iff.mpr hwanted
  rw [handle, onInventory, hsome]
  exact transmit_written (c := c.record (.received (.inv entries))) h.wide h.writer _

/-- The peer has confirmed the handshake. -/
def confirmed (c : Connection) : Connection :=
  ((c.record (.received .verack)).enter .ready).record (.emitted (.connection .verack))

theorem SameSetup.confirmed (c : Connection) : c.SameSetup c.confirmed :=
  ((SameSetup.record _ c).trans (.enter _ _)).trans (.record _ _)

/-- With the end of the handshake nothing is written yet, and so nothing can be held up. -/
theorem Fluent.confirmed (h : c.Fluent) : c.confirmed.Fluent := ⟨h.quiet, h.wide, h.writer⟩

/-- A filter has been handed over, and this is noted. -/
def loaded (c : Connection) : Connection :=
  ({ c with dice := c.dice.roll.2 }.written (.filterLoad c.nextFilter)).markLoaded

/-- A filter uses a number of the dice and is noted as handed over; the settings it was built from
stay. -/
theorem SameSetup.loaded (c : Connection) : c.SameSetup c.loaded :=
  ((SameSetup.rolled c _).trans (.written _ _)).trans (.markLoaded _)

/-- A filter goes out at once, like any other message. -/
theorem Fluent.loaded (h : c.Fluent) : c.loaded.Fluent := by
  have hrolled : ({ c with dice := c.dice.roll.2 } : Connection).Fluent :=
    ⟨h.quiet, h.wide, h.writer⟩
  have hmarked {c : Connection} (h : c.Fluent) : c.markLoaded.Fluent := ⟨h.quiet, h.wide, h.writer⟩
  exact hmarked (hrolled.written _)

theorem hasFilter_of_watched (h : c.watched ≠ []) : c.hasFilter = true := by
  simp [hasFilter, h]

/-- **A filter is handed over without fail** to a peer that takes filters, over a link that takes
bytes. -/
theorem Fluent.transmitFilter_eq (h : c.Fluent) (htakes : c.TakesFilter)
    (hwatched : c.watched ≠ []) : c.transmitFilter = (c.loaded, .done) := by
  have hsent := transmit_written (c := { c with dice := c.dice.roll.2 }) h.wide h.writer
    (.filterLoad c.nextFilter)
  rw [Connection.transmitFilter_eq htakes (hasFilter_of_watched hwatched)]
  dsimp only
  rw [hsent]
  rfl

/-- Nobody hears of the end of the handshake, but it is written down. -/
theorem Fluent.emit_verack (h : c.Fluent) :
    emit .connection .verack ((c.record (.received .verack)).enter .ready) = c.confirmed :=
  emit_of_nobody (c := (c.record (.received .verack)).enter .ready) h.quiet .verack

/-- **With the handshake a filter is handed over**, if the peer has offered to take one. -/
theorem Fluent.handle_verack (h : c.Fluent) (hwatched : c.watched ≠ [])
    (hoffers : c.session.services.contains .bloom = true) :
    (c.record (.received .verack)).handle .verack = (c.confirmed.loaded, .done) := by
  have hservices : c.confirmed.session.services = c.session.services := rfl
  have htakes : c.confirmed.TakesFilter := ⟨rfl, by rw [hservices, hoffers]⟩
  have hwatched' : c.confirmed.watched ≠ [] := hwatched
  rw [handle, onVerack, h.emit_verack, if_pos (hasFilter_of_watched hwatched')]
  exact h.confirmed.transmitFilter_eq htakes hwatched'

/-- Without anything to watch there is no filter to hand over. -/
theorem Fluent.handle_verack_unwatched (h : c.Fluent) (hwatched : c.watched = []) :
    (c.record (.received .verack)).handle .verack = (c.confirmed, .done) := by
  have hfilter : c.confirmed.hasFilter = false := by
    have hwatched' : c.confirmed.watched = [] := hwatched
    rw [hasFilter, hwatched']
    rfl
  rw [handle, onVerack, h.emit_verack, hfilter]
  rfl

/-- The owner hands over a filter while the reader waits. -/
theorem Fluent.loadFilter_eq (h : c.Fluent) (htask : c.task = .reading intake)
    (htakes : c.TakesFilter) (hwatched : c.watched ≠ []) : c.loadFilter = (c.loaded, .done) := by
  have hfree : c.isReplying = false := by rw [isReplying, htask]
  rw [loadFilter, hfree]
  exact h.transmitFilter_eq htakes hwatched

/-- Whether the peer takes a filter does not depend on what the reader holds. -/
theorem TakesFilter.reading (h : c.TakesFilter) (intake : Intake) :
    ({ c with task := .reading intake } : Connection).TakesFilter :=
  ⟨h.stage, h.services⟩

/-- **The owner ends the session**, and nobody hears of it. -/
theorem disconnect_of_nobody (htask : c.task = .reading intake)
    (hsignals : c.signals = .reading) (hstall : c.link.stallClose = false)
    (hquiet : (c.listeners.ofKind .connection).entries = []) :
    c.disconnect = ({ c.ask.hangUp.ended with task := .none }, .done) := by
  have hended : c.ask.hangUp.endSession = c.ask.hangUp.ended := by
    have hparted : c.ask.hangUp.signals.parted = false := by
      show c.signals.parted = false
      rw [hsignals, Signals.reading]
    rw [endSession, hparted, if_neg Bool.false_ne_true]
    exact emit_of_nobody (c := c.ask.hangUp.part) hquiet .disconnected
  have hbell : c.signals.bell = true := by rw [hsignals, Signals.reading]
  rw [disconnect, htask]
  dsimp only
  rw [if_pos hbell, hstall, if_neg Bool.false_ne_true, hended]

/-- The owner has handed over a filter, and has ended the session. -/
def departed (c : Connection) : Connection := { c.loaded.ask.hangUp.ended with task := .none }

/-- What is watched stays watched when the owner has ended the session. -/
theorem SameSettings.departed (c : Connection) : c.SameSettings c.departed := by
  have hended {c : Connection} :
      c.SameSettings { c.ask.hangUp.ended with task := .none } := ⟨rfl, rfl, rfl⟩
  exact (SameSetup.loaded c).toSameSettings.trans hended

/-- Of all that is known of the session, only that the peer has a filter is new. -/
theorem session_loaded (c : Connection) :
    c.loaded.session = { c.session with filterLoaded := true } := by
  have hmarked (c : Connection) :
      c.markLoaded.session = { c.session with filterLoaded := true } := rfl
  have hwritten (c : Connection) (m : Outgoing) : (c.written m).session = c.session := rfl
  rw [loaded, hmarked, hwritten]

/-- What is known of the peer is still there when the session is over. -/
theorem session_departed (c : Connection) :
    c.departed.session = { c.session with stage := .disconnected, filterLoaded := false } := by
  have hended (c : Connection) : c.ask.hangUp.ended.session =
      { c.session with stage := .disconnected, filterLoaded := false } := rfl
  rw [departed, hended, session_loaded]

/-- A filter is one entry, whatever its size. -/
theorem journal_loaded (c : Connection) :
    c.loaded.journal = c.journal ++ [.sent (.filterLoad c.nextFilter)] := by
  simp only [loaded, markLoaded, written, record]

/-- What is written down when the owner ends a session of which nobody hears. -/
theorem journal_hungUp (c : Connection) : c.ask.hangUp.ended.journal = c.journal ++
    [.entered .disconnected, .emitted (.connection .disconnected)] := by
  simp only [ended, part, hangUp, ask, enter, record, List.append_assoc, List.cons_append,
    List.nil_append]

/-- The filter of the owner stands in front of the end of the session. -/
theorem journal_departed (c : Connection) : c.departed.journal = c.journal ++
    [.sent (.filterLoad c.nextFilter), .entered .disconnected,
      .emitted (.connection .disconnected)] := by
  rw [departed, journal_hungUp, journal_loaded, List.append_assoc]
  rfl

/-- While the reader waits, the owner hands over a filter and ends the session. -/
theorem Fluent.depart (h : c.Fluent) (htask : c.task = .reading intake) (htakes : c.TakesFilter)
    (hwatched : c.watched ≠ []) (hsignals : c.signals = .reading)
    (hstall : c.link.stallClose = false) :
    c.loadFilter = (c.loaded, .done) ∧ c.loaded.disconnect = (c.departed, .done) := by
  have hsame := SameSetup.loaded c
  exact ⟨h.loadFilter_eq htask htakes hwatched, disconnect_of_nobody (hsame.task.trans htask)
    (hsame.signals.trans hsignals) (hsame.stallClose.trans hstall) h.loaded.quiet⟩

/-- The owner's filter has met a full link, and waits behind the writer. -/
def holding (c : Connection) : Connection :=
  { ({ c with dice := c.dice.roll.2 } : Connection).record (.sent (.filterLoad c.nextFilter)) with
    writer := some (c.frame (.filterLoad c.nextFilter)) }

/-- **A filter that the peer does not take is held up behind the writer.**  The owner is told so,
and it is not noted that the peer has a filter, although the message was sent. -/
theorem loadFilter_full (hfull : c.link.IsFull) (hwriter : c.writer = some [])
    (htask : c.task = .reading intake) (htakes : c.TakesFilter) (hwatched : c.watched ≠ []) :
    c.loadFilter = (c.holding, .blocked none) := by
  have hfree : c.isReplying = false := by rw [isReplying, htask]
  have hlow : ¬ highWater ≤ (c.writer.getD []).length := by
    rw [hwriter]
    decide
  have hsent : ({ c with dice := c.dice.roll.2 } : Connection).transmit (.filterLoad c.nextFilter) =
      (c.holding, .blocked none) := by
    rw [transmit, if_neg hlow]
    exact push_full (c := { c with dice := c.dice.roll.2 }) hfull hwriter _
  rw [loadFilter, hfree]
  show c.transmitFilter = _
  rw [transmitFilter_eq htakes (hasFilter_of_watched hwatched)]
  dsimp only
  rw [hsent]
  rfl

/-- The filter is written down when it is handed to the writer, and not when the peer takes it. -/
theorem journal_holding (c : Connection) :
    c.holding.journal = c.journal ++ [.sent (.filterLoad c.nextFilter)] := by
  simp only [holding, record]

/-- The reader does not notice that the owner's filter is held up. -/
theorem SameSetup.holding (c : Connection) : c.SameSetup c.holding := by
  have hwriter {c : Connection} (writer : Option Bytes) : c.SameSetup { c with writer } :=
    ⟨⟨rfl, rfl, rfl⟩, rfl, rfl, rfl, rfl, rfl, rfl⟩
  exact ((SameSetup.rolled c _).trans (.record _ _)).trans (hwriter _)

/-- A reader that waits goes on waiting under the same setup. -/
theorem SameSetup.waits (h : c.SameSetup c') (hwaits : c.Waits intake) : c'.Waits intake :=
  ⟨h.task.trans hwaits.task, (congrArg Signals.stopping h.signals).trans hwaits.running,
    h.inbound.trans hwaits.inbound, h.ending.trans hwaits.ending,
    h.readLimit.trans hwaits.readLimit⟩

/-- A link that changes its ways gives a reader that waits nothing to read. -/
theorem Waits.relink (h : c.Waits intake) (room : Option Nat) :
    c.relink (fun l => { l with room }) = { c with link := { c.link with room } } := by
  have hwaits : ({ c with link := { c.link with room } } : Connection).Waits intake :=
    ⟨h.task, h.running, h.inbound, h.ending, h.readLimit⟩
  exact hwaits.settle_eq

/-- What is asked for while the link is full is asked for when it takes everything again. -/
theorem Waits.ask_over_full (h : c.Waits intake) (hfull : c.link.IsFull)
    (hpending : c.writer = some pending) (hsome : pending ≠ [])
    (hread : Frame.drain c.config.network.magic (intake.held ++ bs) = ⟨[.inv entries], none, []⟩)
    (hbytes : bs ≠ []) (hroom : bs.length ≤ (intake.reserve 1).room)
    (hwanted : wanted c.session.filterLoaded entries ≠ []) :
    ∃ task, (c.deliver bs none).relink (fun l => { l with room := none }) =
      { ({ c with link := { c.link with room := none } } : Connection).asking entries with
        task } := by
  let heard := c.record (.received (.inv entries))
  let reply : Outgoing := .getData (wanted c.session.filterLoaded entries)
  let left := (intake.reserve 1).left bs []
  obtain ⟨held, unsent, hheld⟩ : ∃ held unsent, heard.transmit reply = (held, .blocked unsent) := by
    rcases transmit_full (c := heard) hfull hpending hsome reply with hwaits | hwaits
    · exact ⟨_, _, hwaits⟩
    · exact ⟨_, _, hwaits⟩
  have hhandled : heard.handle (.inv entries) = (held, .blocked unsent) := by
    have hsome' : (wanted heard.session.filterLoaded entries).isEmpty = false :=
      List.isEmpty_eq_false_iff.mpr hwanted
    rw [handle, onInventory, hsome']
    exact hheld
  have hblocked : c.deliver bs none =
      { held with task := .replying unsent ⟨[], none, left⟩ false } := by
    rw [h.deliver hread hbytes hroom, proceed, dispatch, hhandled]
    rfl
  let task : Task := .replying unsent ⟨[], none, left⟩ false
  let widened : Connection := { held with link := { held.link with room := none }, task }
  let asked : Connection := { c with link := { c.link with room := none } }.asking entries
  have hcarried : carryOn unsent widened = ({ asked with task }, .done) :=
    carryOn_of_full (c := heard) hfull hpending hsome hheld task
  have hreader : c.SameReader held := by
    have hwrote := transmit_wrote reply heard
    rw [hheld] at hwrote
    exact ⟨hwrote.reader.task, hwrote.reader.signals, hwrote.reader.inbound, hwrote.reader.ending,
      hwrote.reader.failWrites, hwrote.reader.stallClose, hwrote.reader.writer⟩
  have hrunning : widened.signals.stopping = false := by
    show held.signals.stopping = false
    rw [hreader.signals]
    exact h.running
  have hresumed : widened.resume = { asked with task := .reading left } := by
    rw [resume]
    dsimp only [widened, task]
    rw [hcarried]
    rfl
  refine ⟨.reading left, ?_⟩
  rw [hblocked, Connection.relink]
  show widened.settle = { asked with task := .reading left }
  rw [settle_of_running hrunning, hresumed, read]
  have hinbound : ({ asked with task := .reading left } : Connection).link.inbound = [] := h.inbound
  rw [hinbound, readFrom_nil]
  exact readEnding_eq_self fun _ _ => h.ending
end Connection

end LightPeer
