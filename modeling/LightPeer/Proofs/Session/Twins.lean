import LightPeer.Proofs.Session.Handshake
import LightPeer.Proofs.Session.Kinship

/-!
# Connections that behave alike

What a connection does depends on its state, and twins have the same state but for what their
kinship leaves open.  So every function of a connection takes twins to twins, and its results are
alike: the same failures, the same messages that wait, the same progress.

* `Twins.emit` — an event is told on both sides;
* `Twins.transmit` — a message is sent on both sides, or waits on both;
* `Twins.handle`, `Twins.dispatch` — messages of the peer are handled equally far;
* `Twins.settle` — and so is all that can be done without the peer.
-/

namespace LightPeer

open Connection Kinship

variable {k : Kinship} {c c' : Connection} {m m' : Outgoing}

namespace Kinship

/-- The same entry is written down on both sides. -/
theorem Twins.record (hk : k.Lawful) (h : k.Twins c c') (entry : Entry) :
    k.Twins (c.record entry) (c'.record entry) :=
  { h with journal := hk.record h.journal entry }

theorem Twins.notice (hk : k.Lawful) (h : k.Twins c c') (n : Notice) :
    k.Twins (c.notice n) (c'.notice n) :=
  h.record hk (.noticed n)

/-- The same stage is entered on both sides. -/
theorem Twins.enter (hk : k.Lawful) (h : k.Twins c c') (stage : Stage) :
    k.Twins (c.enter stage) (c'.enter stage) := by
  have hsession : ({ c'.session with stage } : Session) = { c.session with stage } := by
    rw [h.session]
  have hmoved : k.Twins { c with session := { c.session with stage } }
      { c' with session := { c'.session with stage } } := { h with session := hsession }
  exact hmoved.record hk (.entered stage)

/-- **An event is told to the listeners on both sides.** -/
theorem Twins.emit (hk : k.Lawful) (h : k.Twins c c') (kind : ListenerKind)
    (event : kind.Event) : k.Twins (emit kind event c) (emit kind event c') := by
  have hentries := h.listeners kind
  have htwins := h.record hk (.emitted (.ofKind kind event))
  unfold Connection.emit
  generalize c.record _ = told at htwins ⊢
  generalize c'.record _ = told' at htwins ⊢
  generalize (c.listeners.ofKind kind).entries = entries at hentries ⊢
  generalize (c'.listeners.ofKind kind).entries = entries' at hentries ⊢
  -- A call may register others or remove some; those are called that were there before.
  induction hentries generalizing told told' with
  | nil => exact htwins
  | @cons e e' _ _ hentry _ ih =>
    obtain ⟨id, listener⟩ := e
    obtain ⟨id', listener'⟩ := e'
    obtain ⟨hid, hreactions⟩ := hentry
    cases hid
    exact ih _ _ (hk.call htwins (hreactions event) id)

/-- There is a writer on both sides or on none. -/
theorem Twins.writers (h : k.Twins c c') :
    c.writer = none ∧ c'.writer = none ∨
      ∃ pending pending', c.writer = some pending ∧ c'.writer = some pending' ∧
        k.Written pending pending' := by
  have hwriter := h.writer
  generalize c.writer = writer at hwriter ⊢
  generalize c'.writer = writer' at hwriter ⊢
  cases hwriter with
  | none => exact .inl ⟨rfl, rfl⟩
  | some hbytes => exact .inr ⟨_, _, rfl, rfl, hbytes⟩

/-- There is a writer on both sides or on neither. -/
theorem Twins.isSome_writer (h : k.Twins c c') : c'.writer.isSome = c.writer.isSome := by
  rcases h.writers with ⟨hnone, hnone'⟩ | ⟨_, _, hsome, hsome', _⟩
  · rw [hnone, hnone']
  · rw [hsome, hsome']
    rfl

/-- Something is watched on both sides or on neither, since the same is watched. -/
theorem Twins.hasFilter_eq (h : k.Twins c c') : c'.hasFilter = c.hasFilter := by
  rw [hasFilter, hasFilter, h.watched]

/-- As many bytes are taken on both sides, since the links are equally wide, and as many are
left. -/
theorem Twins.flush (h : k.Twins c c') : k.Results c.flush c'.flush := by
  unfold Connection.flush
  rcases h.writers with ⟨hnone, hnone'⟩ | ⟨pending, pending', hsome, hsome', hbytes⟩
  · rw [hnone, hnone']
    exact .failed h .notConnected
  · obtain ⟨hlink, hrest, hresult⟩ := h.link.write hbytes
    have hwritten : k.Twins
        { c with link := (c.link.write pending).1, writer := some (c.link.write pending).2.1 }
        { c' with
          link := (c'.link.write pending').1, writer := some (c'.link.write pending').2.1 } :=
      { h with link := hlink, writer := .some hrest }
    rw [hsome, hsome']
    dsimp only
    rw [hresult]
    cases (c.link.write pending).2.2 with
    | done => exact .done hwritten
    | blocked => exact .blocked hwritten .none
    | failed text => exact .failed hwritten _

/-- A message is put behind as many bytes, and so the peer takes as many of both. -/
theorem Twins.push (hk : k.Lawful) (h : k.Twins c c') (hm : k.Messages m m') :
    k.Results (c.push m) (c'.push m') := by
  unfold Connection.push
  rcases h.writers with ⟨hnone, hnone'⟩ | ⟨pending, pending', hsome, hsome', hbytes⟩
  · rw [hnone, hnone']
    exact .failed h .notConnected
  · have hframe : k.Written (c.frame m) (c'.frame m') := by
      rw [frame, frame, h.config]
      exact ⟨Frame.length_encode_of_alike hm.1 _, fun hexact => by rw [hm.2 hexact]⟩
    have hfilled : k.Twins { c.record (.sent m) with writer := some (pending ++ c.frame m) }
        { c'.record (.sent m') with writer := some (pending' ++ c'.frame m') } :=
      { h with writer := .some (hbytes.append hframe), journal := hk.sent h.journal hm }
    rw [hsome, hsome']
    exact hfilled.flush

/-- **A message is sent on both sides, or waits on both.** -/
theorem Twins.transmit (hk : k.Lawful) (h : k.Twins c c') (hm : k.Messages m m') :
    k.Results (c.transmit m) (c'.transmit m') := by
  have hsize : (c'.writer.getD []).length = (c.writer.getD []).length := by
    rcases h.writers with ⟨hnone, hnone'⟩ | ⟨_, _, hsome, hsome', hbytes⟩
    · rw [hnone, hnone']
    · rw [hsome, hsome']
      exact hbytes.1
  have hflush := h.flush
  unfold Connection.transmit
  rw [hsize]
  split
  · generalize c.flush = flushed at hflush ⊢
    generalize c'.flush = flushed' at hflush ⊢
    cases hflush with
    | done hflushed => exact hflushed.push hk hm
    | blocked hflushed => exact .blocked hflushed (.some hm)
    | failed hflushed cause => exact .failed hflushed cause
  · exact h.push hk hm

/-- A reply that was held up on both sides goes on on both sides, and comes equally far. -/
theorem Twins.carryOn (hk : k.Lawful) (h : k.Twins c c') {unsent unsent' : Option Outgoing}
    (hunsent : Option.Rel k.Messages unsent unsent') :
    k.Results (c.carryOn unsent) (c'.carryOn unsent') := by
  cases hunsent with
  | none => exact h.flush
  | some hm => exact h.transmit hk hm

theorem Twins.markLoaded (h : k.Twins c c') : k.Twins c.markLoaded c'.markLoaded := by
  have hsession : ({ c'.session with filterLoaded := true } : Session) =
      { c.session with filterLoaded := true } := by rw [h.session]
  exact { h with session := hsession }

/-- Dice may be thrown, if they show the same where the kinship is exact. -/
theorem Twins.chance (h : k.Twins c c') {dice dice' : Dice} (hdice : k.exact → dice' = dice) :
    k.Twins { c with dice } { c' with dice := dice' } :=
  { h with dice := hdice }

/-- Where the kinship is exact, chance is the same on both sides. -/
theorem Twins.roll_eq (h : k.Twins c c') (hexact : k.exact) : c'.dice.roll = c.dice.roll := by
  rw [h.dice hexact]

/-- The filters on both sides have the same size, as they are for the same addresses and built in
the same way.  So they are alike, and what comes of them is alike. -/
theorem Twins.transmitFilter (hk : k.Lawful) (h : k.Twins c c') :
    k.Results c.transmitFilter c'.transmitFilter := by
  have hm : k.Messages (.filterLoad c.nextFilter) (.filterLoad c'.nextFilter) := by
    refine ⟨?_, fun hexact => by rw [nextFilter, nextFilter, h.dice hexact, h.watched, h.policy]⟩
    rw [nextFilter, nextFilter, h.watched, h.policy]
    exact .filter c.watched c.policy.rate c.policy.update _ _
  have hrolled := h.chance fun hexact => congrArg Prod.snd (h.roll_eq hexact)
  have hsent := hrolled.transmit hk hm
  have hstage : c'.session.stage = c.session.stage := by rw [h.session]
  have hservices : c'.session.services = c.session.services := by rw [h.session]
  unfold Connection.transmitFilter
  rw [hstage, hservices, h.hasFilter_eq]
  split
  · exact .failed h .notConnected
  · split
    · exact .failed h .filterNotSupported
    · split
      · exact .done h
      · dsimp only [nextFilter] at hsent ⊢
        generalize ({ c with dice := c.dice.roll.2 } : Connection).transmit _ = sent at hsent ⊢
        generalize ({ c' with dice := c'.dice.roll.2 } : Connection).transmit _ = sent'
          at hsent ⊢
        cases hsent with
        | done htwins => exact .done htwins.markLoaded
        | blocked htwins hunsent => exact .blocked htwins hunsent
        | failed htwins cause => exact .failed htwins cause

/-- A reply is on its way on both sides or on neither. -/
theorem Twins.isReplying_eq (h : k.Twins c c') : c'.isReplying = c.isReplying := by
  have htask := h.task
  rw [← c.isWaiting_duty, ← c'.isWaiting_duty]
  generalize c.task = task at htask ⊢
  generalize c'.task = task' at htask ⊢
  cases htask with
  | idle hidle hidle' => rw [hidle, hidle']
  | _ => rfl

/-- The owner sends the same message on both sides, and is told the same. -/
theorem Twins.send (hk : k.Lawful) (h : k.Twins c c') (m : Outgoing) :
    k.Results (c.send m) (c'.send m) := by
  unfold Connection.send
  rw [h.isReplying_eq]
  split
  · exact .blocked h (.some (.same m))
  · exact h.transmit hk (.same m)

/-- The owner hands over filters on both sides, and is told the same. -/
theorem Twins.loadFilter (hk : k.Lawful) (h : k.Twins c c') :
    k.Results c.loadFilter c'.loadFilter := by
  unfold Connection.loadFilter
  rw [h.isReplying_eq, h.hasFilter_eq, h.session]
  split
  · exact .blocked h .none
  · exact h.transmitFilter hk

theorem Twins.hangUp (h : k.Twins c c') : k.Twins c.hangUp c'.hangUp := by
  have hsome := h.isSome_writer
  obtain ⟨outbound, hlink, hwritten⟩ := h.link
  refine { h with writer := .none, link := ⟨outbound, ?_, hwritten⟩ }
  rw [Connection.hangUp, Connection.hangUp, hlink, hsome]

theorem Twins.part (hk : k.Lawful) (h : k.Twins c c') : k.Twins c.part c'.part := by
  let reset (c : Connection) : Connection := { c with
    session := { c.session with filterLoaded := false }
    signals := { c.signals with parted := true } }
  have hsession : (reset c').session = (reset c).session := by
    show ({ c'.session with filterLoaded := false } : Session) = _
    rw [h.session]
  have hsignals : c.task.duty = .idle ∨ (reset c').signals = (reset c).signals := by
    rcases h.signals with hidle | hsame
    · exact .inl hidle
    · exact .inr (congrArg (fun s : Signals => { s with parted := true }) hsame)
  have hreset : k.Twins (reset c) (reset c') :=
    { h with session := hsession, signals := hsignals }
  exact hreset.enter hk .disconnected

/-- The session ends on both sides, and listeners are told of it on both sides or on neither. -/
theorem Twins.endSession (hk : k.Lawful) (h : k.Twins c c')
    (hparted : c'.signals.parted = c.signals.parted) : k.Twins c.endSession c'.endSession := by
  unfold Connection.endSession
  rw [hparted]
  split
  · exact h.part hk
  · exact (h.part hk).emit hk .connection .disconnected

/-- The links close on both sides or on neither. -/
theorem Twins.stallClose_eq (h : k.Twins c c') : c'.link.stallClose = c.link.stallClose :=
  h.link.eq_of_untold Link.stallClose fun _ _ => rfl

/-- Readers that are in the midst of a session end it in the same way. -/
theorem Twins.conclude (hk : k.Lawful) (h : k.Twins c c') (hbusy : c.task.duty ≠ .idle) :
    k.Twins c.conclude c'.conclude := by
  have hsignals := h.signals_eq hbusy
  unfold Connection.conclude
  rw [h.stallClose_eq]
  split
  · exact { h with writer := .none, task := .closing, signals := .inr hsignals }
  · have hended := h.hangUp.endSession hk (congrArg Signals.parted hsignals)
    exact { hended with task := .idle rfl rfl, signals := .inl rfl }

/-- They give it up for the same reason, and report it. -/
theorem Twins.abandon (hk : k.Lawful) (h : k.Twins c c') (hbusy : c.task.duty ≠ .idle)
    (cause : SessionError) : k.Twins (c.abandon cause) (c'.abandon cause) := by
  unfold Connection.abandon
  rw [h.session]
  exact (h.notice hk _).conclude hk hbusy

/-- The peer is known to both under the same version afterwards, and gets the same answer. -/
theorem Twins.onVersion (hk : k.Lawful) (h : k.Twins c c') (v : Version) :
    k.Results (c.onVersion v) (c'.onVersion v) := by
  have hmet : k.Twins (c.meet v) (c'.meet v) := by
    have hsession : (c'.meet v).session = (c.meet v).session := by
      rw [meet, meet, h.session, h.config]
    exact { h with session := hsession }
  rw [onVersion_eq, onVersion_eq, h.config]
  split
  · exact hmet.transmit hk (.same .verack)
  · exact .done hmet

/-- The handshake ends on both sides.  Listeners are told before a filter is built, and so it is
built from what they have left. -/
theorem Twins.onVerack (hk : k.Lawful) (h : k.Twins c c') :
    k.Results c.onVerack c'.onVerack := by
  have htold := (h.enter hk .ready).emit hk .connection .verack
  unfold Connection.onVerack
  dsimp only
  rw [htold.hasFilter_eq]
  split
  · exact htold.transmitFilter hk
  · exact .done htold

/-- **A message is handled on both sides, with the same end.** -/
theorem Twins.handle (hk : k.Lawful) (h : k.Twins c c') (m : Message) :
    k.Results (c.handle m) (c'.handle m) := by
  cases m with
  | version v => exact h.onVersion hk v
  | verack => exact h.onVerack hk
  | ping p =>
    obtain ⟨_ | nonce⟩ := p
    · exact .done h
    · exact h.transmit hk (.same (.pong ⟨nonce⟩))
  | inv entries =>
    show k.Results (c.onInventory entries) (c'.onInventory entries)
    unfold Connection.onInventory
    rw [h.session]
    dsimp only
    split
    · exact .done h
    · exact h.transmit hk (.same _)
  | tx tx => exact .done (h.emit hk .transaction tx)
  | block b => exact .done (h.emit hk .block (.full b))
  | merkleBlock b =>
    show k.Results (c.onMerkleBlock b) (c'.onMerkleBlock b)
    unfold Connection.onMerkleBlock
    split
    · exact .failed h _
    · next block _ => exact .done (h.emit hk .block (.filtered block))

/-- **The same messages are handled equally far on both sides.**  By induction on the messages, as
the one that stops the one side stops the other. -/
theorem Twins.dispatch (hk : k.Lawful) (h : k.Twins c c') (ms : List Message) :
    k.Stops (dispatch ms c) (dispatch ms c') := by
  induction ms generalizing c c' with
  | nil => exact .handled h
  | cons m ms ih =>
    have hresults := (h.record hk (.received m)).handle hk m
    unfold Connection.dispatch
    generalize (c.record (.received m)).handle m = r at hresults ⊢
    generalize (c'.record (.received m)).handle m = r' at hresults ⊢
    cases hresults with
    | done htwins => exact ih htwins
    | blocked htwins hunsent => exact .blocked htwins hunsent ms (m = .verack)
    | failed htwins cause => exact .failed htwins cause

/-- What comes of a portion is the same on both sides. -/
theorem Twins.proceed (hk : k.Lawful) (h : k.Twins c c') (hbusy : c.task.duty ≠ .idle)
    (received : Backlog) : k.Twins (c.proceed received) (c'.proceed received) := by
  have hstops := h.dispatch hk received.messages
  have hstill : (Connection.dispatch received.messages c).1.task.duty ≠ .idle := by
    rw [(dispatch_sameReader received.messages c).task]
    exact hbusy
  unfold Connection.proceed
  generalize Connection.dispatch received.messages c = r at hstops hstill ⊢
  generalize Connection.dispatch received.messages c' = r' at hstops ⊢
  cases hstops with
  | failed htwins cause => exact htwins.abandon hk hstill cause
  | blocked htwins hunsent rest loading =>
    exact { htwins with
      task := .replying hunsent { received with messages := rest } loading
      signals := .inr (htwins.signals_eq hstill) }
  | handled htwins =>
    dsimp only
    split
    · exact htwins.abandon hk hstill _
    · exact { htwins with
        task := .reading received.intake
        signals := .inr (htwins.signals_eq hstill) }

/-- As many bytes are left to be read, and they are the same ones, since both have read the same. -/
theorem Twins.leave (h : k.Twins c c') (waiting : Bytes) :
    k.Twins (c.leave waiting) (c'.leave waiting) := by
  obtain ⟨outbound, hlink, hwritten⟩ := h.link
  refine { h with link := ⟨outbound, ?_, hwritten⟩ }
  rw [Connection.leave, Connection.leave, hlink]

/-- A reader that has nothing to do has no session, or has seen its end. -/
theorem eq_of_idle {task : Task} (h : task.duty = .idle) : task = .none ∨ task = .finished := by
  cases task with
  | none => exact .inl rfl
  | finished => exact .inr rfl
  | _ => cases h

/-- The readers on both sides have nothing to do, or to see the link closed, or to go on. -/
theorem Twins.reader (h : k.Twins c c') :
    (c.task.duty = .idle ∧ c'.task.duty = .idle) ∨ (c.task = .closing ∧ c'.task = .closing) ∨
      (c.task.duty.isLive ∧ c'.task.duty.isLive) := by
  have htask := h.task
  generalize c.task = task at htask ⊢
  generalize c'.task = task' at htask ⊢
  cases htask with
  | idle hidle hidle' => exact .inl ⟨hidle, hidle'⟩
  | closing => exact .inr (.inl ⟨rfl, rfl⟩)
  | _ => exact .inr (.inr ⟨rfl, rfl⟩)

/-- The one reader waits for bytes exactly if the other does, and they hold the same bytes. -/
theorem Twins.reading_iff (h : k.Twins c c') (intake : Intake) :
    c'.task = .reading intake ↔ c.task = .reading intake := by
  have htask := h.task
  generalize c.task = task at htask ⊢
  generalize c'.task = task' at htask ⊢
  cases htask with
  | idle hidle hidle' =>
    -- One reader may have finished where the other never began.
    rcases eq_of_idle hidle with rfl | rfl <;> rcases eq_of_idle hidle' with rfl | rfl <;> simp
  | _ => simp

/-- A reader that does not wait for bytes takes none. -/
theorem readFrom_of_not_reading (h : ∀ intake, c.task ≠ .reading intake) (waiting : Bytes) :
    c.readFrom waiting = c := by
  rw [Connection.readFrom]
  split
  · next htask => exact absurd htask (h _)
  · rfl

/-- **Bytes are read on both sides in the same portions.** -/
theorem readFrom_twins (hk : k.Lawful) (waiting : Bytes) (c : Connection) :
    ∀ c', k.Twins c c' → k.Twins (c.readFrom waiting) (c'.readFrom waiting) := by
  fun_induction Connection.readFrom waiting c with
  | case1 c left htask =>
    intro c' h
    rw [readFrom_nil]
    exact h
  | case2 waiting c left htask hsome intake size received ih =>
    intro c' h
    have hportion : c'.link.portion intake.room = size :=
      h.link.eq_of_untold (fun link => link.portion intake.room) fun _ _ => rfl
    -- The second reads portions of the same size, since its buffer has the same room.
    have hread : c'.readFrom waiting = Connection.readFrom (waiting.drop size)
        ((c'.leave (waiting.drop size)).proceed received) := by
      rw [Connection.readFrom, (h.reading_iff left).mpr htask]
      dsimp only
      rw [dif_neg hsome, hportion, h.config]
    have hbusy : c.task.duty ≠ .idle := by
      rw [htask]
      intro hidle
      cases hidle
    rw [hread]
    exact ih _ ((h.leave (waiting.drop size)).proceed hk hbusy received)
  | case3 waiting c hother =>
    intro c' h
    rw [readFrom_of_not_reading fun intake htask => hother intake ((h.reading_iff intake).mp htask)]
    exact h

/-- The end of the stream is the same on both sides, and comes to the same. -/
theorem Twins.readEnding (hk : k.Lawful) (h : k.Twins c c') :
    k.Twins c.readEnding c'.readEnding := by
  have hending : c'.link.ending = c.link.ending :=
    h.link.eq_of_untold Link.ending fun _ _ => rfl
  by_cases hreading : ∃ intake, c.task = .reading intake
  · obtain ⟨intake, htask⟩ := hreading
    have hbusy : c.task.duty ≠ .idle := by
      rw [htask]
      nofun
    unfold Connection.readEnding
    rw [htask, (h.reading_iff intake).mpr htask, hending, h.config]
    cases c.link.ending with
    | none => exact h
    | some ending =>
      cases ending with
      | failed text => exact h.abandon hk hbusy _
      | closed =>
        dsimp only
        split
        · exact h.abandon hk hbusy _
        · exact h.conclude hk hbusy
  · have hnone : ∀ intake, c.task ≠ .reading intake :=
      fun intake htask => hreading ⟨intake, htask⟩
    have hnone' : ∀ intake, c'.task ≠ .reading intake :=
      fun intake htask => hnone intake ((h.reading_iff intake).mp htask)
    rw [readEnding_eq_self fun intake htask => absurd htask (hnone intake),
      readEnding_eq_self fun intake htask => absurd htask (hnone' intake)]
    exact h

/-- Readers that were held up go on in the same way. -/
theorem Twins.resume (hk : k.Lawful) (h : k.Twins c c') : k.Twins c.resume c'.resume := by
  have htask := h.task
  have hcarries (unsent : Option Outgoing) : (c.carryOn unsent).1.task = c.task :=
    (carryOn_wrote unsent c).reader.task
  unfold Connection.resume
  generalize c.task = task at htask hcarries ⊢
  generalize c'.task = task' at htask ⊢
  cases htask with
  | idle hidle hidle' =>
    rcases eq_of_idle hidle with rfl | rfl <;> rcases eq_of_idle hidle' with rfl | rfl <;> exact h
  | reading | closing => exact h
  | @replying unsent unsent' hunsent backlog loading =>
    have hcarried := h.carryOn hk hunsent
    have hbusy : (c.carryOn unsent).1.task.duty ≠ .idle := by
      rw [hcarries]
      nofun
    dsimp only
    generalize c.carryOn unsent = r at hcarried hbusy ⊢
    generalize c'.carryOn unsent' = r' at hcarried ⊢
    cases hcarried with
    | done htwins =>
      cases loading with
      | true => exact htwins.markLoaded.proceed hk hbusy backlog
      | false => exact htwins.proceed hk hbusy backlog
    | blocked htwins hunsent' =>
      exact { htwins with
        task := .replying hunsent' backlog loading
        signals := .inr (htwins.signals_eq hbusy) }
    | failed htwins cause => exact htwins.abandon hk hbusy cause

/-- Without a session no reply is on its way, and nothing waits for the peer to take bytes. -/
theorem pending_of_idle {task : Task} (h : task.duty = .idle) : task.pending = none := by
  rcases eq_of_idle h with rfl | rfl <;> rfl

/-- Readers that are not to go on end the session in the same way. -/
theorem Twins.halt (hk : k.Lawful) (h : k.Twins c c') : k.Twins c.halt c'.halt := by
  have htask := h.task
  have hconclude (hbusy : c.task.duty ≠ .idle) : k.Twins c.conclude c'.conclude :=
    h.conclude hk hbusy
  unfold Connection.halt
  generalize c.task = task at htask hconclude ⊢
  generalize c'.task = task' at htask ⊢
  cases htask with
  | idle hidle hidle' =>
    rcases eq_of_idle hidle with rfl | rfl <;> rcases eq_of_idle hidle' with rfl | rfl <;> exact h
  | closing => exact h
  | reading intake => exact hconclude nofun
  | replying hunsent backlog loading => exact hconclude nofun

/-- Twins go on as far as they can, and remain twins. -/
theorem Twins.settle (hk : k.Lawful) (h : k.Twins c c') : k.Twins c.settle c'.settle := by
  by_cases hidle : c.task.duty = .idle
  · have hidle' : c'.task.duty = .idle := by
      rcases h.reader with ⟨_, hidle'⟩ | ⟨hclosing, _⟩ | ⟨hlive, _⟩
      · exact hidle'
      · rw [hclosing] at hidle
        cases hidle
      · rw [hidle] at hlive
        cases hlive
    rw [settle_eq_self (pending_of_idle hidle), settle_eq_self (pending_of_idle hidle')]
    exact h
  · have hresumed := h.resume hk
    have hinbound : c'.resume.link.inbound = c.resume.link.inbound :=
      hresumed.link.eq_of_untold Link.inbound fun _ _ => rfl
    unfold Connection.settle Connection.read
    rw [h.signals_eq hidle, hinbound]
    split
    · exact h.halt hk
    · exact (readFrom_twins hk _ _ _ hresumed).readEnding hk

end Kinship

end LightPeer
